import CppNames.Grammar.Specifier

namespace CppNames
namespace Grammar

/-!
# Declarations and statements

A declaration or statement begins with a token that tells which one it is, or else is a
list of declarators behind specifiers, or an expression.
-/

/-- A production for the elements of a list that spells a construct. -/
def spelling (construct : Construct) (elements : Production (List Tree.Plain)) :
    Production Tree.Plain :=
  return Tree.list construct (← elements)

/-! ## Simple declarations -/

/-- A using-directive or using-declaration. -/
def usingForm (g : Productions) : Production Tree.Plain := do
  let keyword ← take
  match ← take? .kwNamespace with
  | some nominates =>
    let named ← name g false
    let semicolon ← expect .semicolon ";"
    return Tree.encodedList .usingDirective (some named.encoding) none
      [keyword, nominates, named.tree, semicolon]
  | none =>
    discard (take? .kwTypename)
    let named ← name g false
    let semicolon ← expect .semicolon ";"
    return Tree.encodedList .usingDeclaration (some named.encoding) none
      [keyword, named.tree, semicolon]

/-- Declarators of type definitions, whose names become known as types. -/
def typedefDeclarators (g : Productions) (base : Encoding) : Production (List Tree.Plain) :=
  commaSeparated do
    let declared ← declarator g base .named
    match declared.name with
    | some text => learnType text
    | none => pure ()
    return [declared.tree]

/-- A type definition. -/
def typedefDeclaration (g : Productions) : Production Tree.Plain := do
  let keyword ← take
  let read ← specifiers g .namespaceBody
  let declarators ← typedefDeclarators g read.encoding
  let semicolon ← expect .semicolon ";"
  return Tree.list .typedefDecl [keyword, read.type, Tree.seq declarators, semicolon]

/-- Statements up to a closing brace or the end of the text. -/
def statements (g : Productions) : Production (List Tree.Plain) :=
  repeatFrom [] fun read => do
    if [.closeBrace, .endOfFile].contains (← kind) then return .done read
    else return .again (read ++ (← recovering g.statement))

/-- Statements in braces. -/
def block (g : Productions) : Production Tree.Plain := do
  let opening ← expect .openBrace "\x7b"
  let read ← inBlock (statements g)
  let closing ← expect .closeBrace "\x7d"
  return Tree.list .block [opening, Tree.seq read, closing]

/-- One member or base class that a constructor initializes. -/
def memberInitializer (g : Productions) : Production Tree.Plain := do
  let named ← name g true
  let opening ← expect .openParen "("
  let operands ← arguments g
  let closing ← expect .closeParen ")"
  return Tree.seq [named.tree, opening, operands, closing]

/-- The initializers of a constructor, if they are there. -/
def memberInitializers (g : Productions) : Production (List Tree.Plain) := do
  match ← take? .colon with
  | none => return []
  | some colon =>
    let items ← commaSeparated do return [← memberInitializer g]
    return [Tree.seq (colon :: items)]

/-- Further declarators behind a first one, each behind a comma. -/
def moreDeclarators (g : Productions) (base : Encoding) (form : DeclaratorForm)
    (first : Tree.Plain) : Production (List Tree.Plain) :=
  repeatFrom [first] fun read => do
    match ← take? .comma with
    | none => return .done read
    | some comma =>
      let declared ← declarator g base form
      return .again (read ++ [comma, declared.tree])

/-- A declaration of variables, functions or types, or the definition of a function. -/
def simpleDeclaration (g : Productions) (place : Place) : Production Tree.Plain := do
  let read ← specifiers g place
  match ← take? .semicolon with
  | some semicolon =>
    if read.type.isNil && read.storage.isNil then fail .declarationExpected []
    else return Tree.list .declaration [read.storage, read.type, Tree.nil, semicolon]
  | none =>
    let form : DeclaratorForm := if place == .classBody then .member else .named
    let first ← declarator g read.encoding form
    if first.isFunction && [.openBrace, .colon].contains (← kind) then
      let members ← memberInitializers g
      let body ← block g
      return Tree.list .declaration
        ([read.storage, read.type, first.tree] ++ members ++ [body])
    else
      let declarators ← moreDeclarators g read.encoding form first.tree
      let semicolon ← expect .semicolon ";"
      return Tree.list .declaration
        [read.storage, read.type, Tree.seq declarators, semicolon]

/-! ## Templates -/

/-- The tokens that may follow the keyword of a type parameter. -/
def followsTypeKeyword (kind : Token.Kind) : Bool :=
  [.identifier, .comma, .greater, .equals].contains kind

/-- The default of a type parameter, if it has one. -/
def typeParameterDefault (g : Productions) : Production (List Tree.Plain) := do
  match ← take? .equals with
  | none => return []
  | some equals => return [equals, (← g.typeId).tree]

/-- A type parameter, whose name becomes known as a type. -/
def typeParameter (g : Productions) : Production Tree.Plain := do
  let keyword ← take
  let named ← take? .identifier
  let fallback ← typeParameterDefault g
  let encoding ← typeNameEncoding named
  return Tree.encodedList .typeParameter (some encoding) none
    ([keyword, named.getD Tree.nil] ++ fallback)

/-- A parameter of a template: a type, or else a value like the parameter of a
function. -/
def templateParameter (g : Productions) : Production Tree.Plain := do
  if [.kwClass, .kwTypename].contains (← kind) && followsTypeKeyword (← kindBehind) then
    typeParameter g
  else return (← inTemplate g.parameter).tree

/-- The name of the function that a declaration declares first. -/
def declaredFunction? (declaration : Tree.Plain) : Option String := do
  if declaration.isA .declaration then
    let third := declaration.third
    let declarator := if third.isA .declarator then third else third.first
    let type ← declarator.type?
    if type.isFunction then
      let named ← declarator.elements.find? fun element =>
        element.isToken .identifier || element.isA .name
      lastIdentifier? named
    else none
  else none

/-- The parameters of a template up to the closing `>`. -/
def templateParameters (g : Productions) : Production (List Tree.Plain) := do
  splitShift
  if ← sees .greater then return []
  else commaSeparated do return [← templateParameter g]

/-- A declaration under a template header.  A function that it declares becomes known as
a template. -/
def templateDeclaration (g : Productions) (place : Place) : Production Tree.Plain := do
  let keyword ← take
  let opening ← expect .less "<"
  let parameters ← templateParameters g
  let closing ← expect .greater ">"
  let declaration ← underTemplateHeader (g.declaration place)
  match declaredFunction? declaration with
  | some text => learnTemplate text
  | none => pure ()
  return Tree.list .templateDecl
    [keyword, opening, Tree.seq parameters, closing, declaration]

/-! ## Declarations -/

/-- A namespace with its body. -/
def namespaceDeclaration (g : Productions) : Production Tree.Plain := do
  let keyword ← take
  let named ← take? .identifier
  let body ← braced g .brace .namespaceBody
  return Tree.encodedList .namespaceSpec (named.map fun n => .simpleName n.text) none
    [keyword, named.getD Tree.nil, body]

/-- Declarations with another linkage: one, or several in braces. -/
def linkageDeclaration (g : Productions) (place : Place) : Production Tree.Plain := do
  let keyword ← take
  let language ← take
  let inner := if place == .file then .namespaceBody else place
  let body ← if ← sees .openBrace then braced g .brace inner else g.declaration place
  return Tree.list .linkageSpec [keyword, language, body]

/-- An access specifier with its colon. -/
def accessDeclaration : Production Tree.Plain := do
  let access ← take
  let colon ← expect .colon ":"
  return Tree.list .accessSpec [access, colon]

/-- A declaration. -/
def declaration (g : Productions) (place : Place) : Production Tree.Plain :=
  nested do
    match ← kind with
    | .kwNamespace => namespaceDeclaration g
    | .kwUsing => usingForm g
    | .kwTemplate => templateDeclaration g place
    | .kwTypedef => typedefDeclaration g
    | .semicolon => return Tree.list .declaration [Tree.nil, Tree.nil, Tree.nil, ← take]
    | next =>
      if next == .kwExtern && (← kindBehind) == .stringLiteral then linkageDeclaration g place
      else if next.isAccessSpecifier && place == .classBody then accessDeclaration
      else simpleDeclaration g place

end Grammar
end CppNames
