import CppNames.Grammar.Declarator

namespace CppNames
namespace Grammar

/-!
# Specifiers and types

In front of its declarators a declaration has storage classes, function specifiers and
the words of a type, in any order.  A class or an enumeration may be declared there.
-/

/-- The specifiers of a declaration. -/
structure Specifiers where
  /-- Storage classes and function specifiers. -/
  storage : Tree.Plain
  /-- The words of the type. -/
  type : Tree.Plain
  /-- The type that the words spell. -/
  encoding : Encoding

/-! ## Declaration lists -/

/-- Declarations up to the end of the text or, outside the file's own list, up to a
closing brace.  In the file's own list such a brace is reported and passed over. -/
def declarationList (g : Productions) (place : Place) : Production (List Tree.Plain) :=
  repeatFrom [] fun declarations => do
    match ← kind with
    | .endOfFile => return .done declarations
    | .closeBrace =>
      if place == .file then
        report .declarationExpected []
        modify State.behindNext
        return .again declarations
      else return .done declarations
    | _ => return .again (declarations ++ (← recovering (g.declaration place)))

/-- Declarations in braces. -/
def braced (g : Productions) (construct : Construct) (place : Place) :
    Production Tree.Plain := do
  let opening ← expect .openBrace "\x7b"
  let declarations ← declarationList g place
  let closing ← expect .closeBrace "\x7d"
  return Tree.list construct [opening, Tree.seq declarations, closing]

/-! ## Classes and enumerations -/

/-- Whether a keyword may stand in front of the name of a base class. -/
def isBaseSpecifier (kind : Token.Kind) : Bool :=
  kind.isAccessSpecifier || kind == .kwVirtual

/-- The base classes behind a colon. -/
def baseClause (g : Productions) : Production Tree.Plain := do
  let colon ← take
  let bases ← commaSeparated do
    let specifiers ← takeRun isBaseSpecifier
    let base ← name g true
    return [Tree.seq (specifiers ++ [base.tree])]
  return Tree.seq (colon :: bases)

/-- The name of a class, which becomes known as a type, and under a template header as a
template.  A class without a name gets a fresh one. -/
def className (g : Productions) (headed : Bool) : Production (Tree.Plain × Encoding) := do
  if [.identifier, .colonColon].contains (← kind) then
    let named ← name g true
    match lastIdentifier? named.tree with
    | some text =>
      learnType text
      if headed then learnTemplate text
    | none => pure ()
    return (named.tree, named.encoding)
  else return (Tree.nil, ← anonymousName)

/-- Whether a template header is waiting for its class; it waits no longer. -/
def takeHeader : Production Bool := do
  let headed := (← get).underHeader
  modify fun state => { state with underHeader := false }
  return headed

/-- A class with the base classes and the body it may have. -/
def classSpecifier (g : Productions) : Production Encoded := do
  let keyword ← take
  let headed ← takeHeader
  let (named, encoding) ← className g headed
  let bases ← if ← sees .colon then baseClause g else pure Tree.nil
  let body ← if ← sees .openBrace then braced g .classBody .classBody else pure Tree.nil
  return ⟨Tree.encodedList .classSpec (some encoding) none [keyword, named, bases, body],
    encoding⟩

/-- One enumerator, with or without a value. -/
def enumerator (g : Productions) : Production Tree.Plain := do
  let identifier ← expect .identifier "identifier"
  match ← take? .equals with
  | none => return identifier
  | some equals =>
    let value ← conditionalExpression g
    return Tree.seq [identifier, equals, value]

/-- Enumerators and commas up to a closing brace. -/
def enumerators (g : Productions) : Production (List Tree.Plain) :=
  repeatFrom [] fun items => do
    if ← sees .closeBrace then return .done items
    else
      let item ← enumerator g
      match ← take? .comma with
      | some comma => return .again (items ++ [item, comma])
      | none => return .done (items ++ [item])

/-- The enumerators in braces, if they are there. -/
def enumBody (g : Productions) : Production Tree.Plain := do
  match ← take? .openBrace with
  | none => return Tree.nil
  | some opening =>
    let items ← enumerators g
    let closing ← expect .closeBrace "\x7d"
    return Tree.list .brace [opening, Tree.seq items, closing]

/-- The encoding of a declared type's name, which becomes known as a type; a fresh one
where there is no name. -/
def typeNameEncoding (named : Option Tree.Plain) : Production Encoding := do
  match named with
  | some identifier =>
    learnType identifier.text
    return .simpleName identifier.text
  | none => anonymousName

/-- An enumeration with the enumerators it may have. -/
def enumSpecifier (g : Productions) : Production Encoded := do
  let keyword ← take
  let named ← take? .identifier
  let encoding ← typeNameEncoding named
  let body ← enumBody g
  return ⟨Tree.encodedList .enumSpec (some encoding) none [keyword, named.getD Tree.nil, body],
    encoding⟩

/-! ## Specifiers -/

/-- What was read of the specifiers of a declaration. -/
structure SpecifierWords where
  storage : List Tree.Plain := []
  words : List Tree.Plain := []
  builtin : BuiltinWords := {}
  named : Option Encoding := none

namespace SpecifierWords

/-- Whether the words spell a type. -/
def hasType (read : SpecifierWords) : Bool := read.named.isSome || read.builtin.any

/-- The words with one more, which belongs to the type. -/
def withWord (read : SpecifierWords) (word : Tree.Plain) : SpecifierWords :=
  { read with words := read.words ++ [word] }

/-- The words with a type that has a name. -/
def withNamed (read : SpecifierWords) (type : Encoded) : SpecifierWords :=
  { read.withWord type.tree with named := some type.encoding }

/-- The type without its qualifiers.  Qualifiers alone stand for `int`; without any word
there is no type. -/
def bareType (read : SpecifierWords) : Encoding :=
  match read.named with
  | some encoding => encoding
  | none =>
    read.builtin.encoding?.getD (.builtin (if read.words.isEmpty then '?' else 'i'))

/-- The type that the words spell; `const` comes outermost. -/
def encoding (read : SpecifierWords) : Encoding :=
  let qualify (keyword : Token.Kind) (wrap : Encoding → Encoding) (type : Encoding) :=
    if read.words.any (·.isToken keyword) then wrap type else type
  qualify .kwConst .constOf (qualify .kwVolatile .volatileOf read.bareType)

end SpecifierWords

/-- Reads one more specifier, if there is one.  A type is complete once it has a name;
only builtin words go together. -/
def specifier (g : Productions) (place : Place) (read : SpecifierWords) :
    Production (Turn SpecifierWords) := do
  let next ← kind
  if next.isDeclSpecifier && next != .kwTypedef then
    return .again { read with storage := read.storage ++ [← take] }
  else if next.isCvQualifier then return .again (read.withWord (← take))
  else if next.isBuiltinType && read.named.isNone then
    let builtin ← counting (read.builtin.add? next)
    return .again { read.withWord (← take) with builtin := builtin }
  else if read.hasType then return .done read
  else
    match next with
    | .kwClass | .kwStruct | .kwUnion => return .again (read.withNamed (← classSpecifier g))
    | .kwEnum => return .again (read.withNamed (← enumSpecifier g))
    | .kwTypename =>
      let keyword ← take
      return .again ((read.withWord keyword).withNamed (← name g true))
    | .identifier | .colonColon =>
      if place.allowsConstructor && (← asks atSpecialMember) then return .done read
      else return .again (read.withNamed (← name g true))
    | _ => return .done read

/-- The specifiers of a declaration. -/
def specifiers (g : Productions) (place : Place) : Production Specifiers := do
  let read ← repeatFrom {} (specifier g place)
  return ⟨Tree.seq read.storage, grouped read.words, read.encoding⟩

/-! ## Types -/

/-- The specifiers of a parameter or of a type, which must spell a type. -/
def requiredType (g : Productions) (place : Place) : Production Specifiers := do
  let read ← specifiers g place
  if read.type.isNil then fail .typeExpected [] else return read

/-- A parameter with the type it has. -/
def parameterDeclaration (g : Productions) : Production Encoded := do
  let read ← requiredType g .parameter
  let declared ← declarator g read.encoding .parameter
  return ⟨Tree.encodedList .parameterDeclaration declared.tree.name? (some declared.type)
    [read.storage, read.type, declared.tree], declared.type⟩

/-- The tokens with which the declarator of a type begins. -/
def startsAbstractDeclarator (kind : Token.Kind) : Bool :=
  [.star, .amp, .openBracket].contains kind

/-- A type that names nothing. -/
def typeId (g : Productions) : Production Encoded := do
  let read ← requiredType g .typeId
  if startsAbstractDeclarator (← kind) then
    let declared ← declarator g read.encoding .abstract
    return ⟨Tree.encodedList .typeId none (some declared.type) [read.type, declared.tree],
      declared.type⟩
  else
    return ⟨Tree.encodedList .typeId none (some read.encoding) [read.type, Tree.nil],
      read.encoding⟩

end Grammar
end CppNames
