import CppNames.Grammar.Expression
import CppNames.Text.Numeral

namespace CppNames
namespace Grammar

/-!
# Declarators

A declarator says what is declared and wraps the declared type around the type in front
of it: pointers and references as they are read, then functions and arrays from the
last to the first.  Its tree carries the encoded name and the encoded type.
-/

/-- What a declarator may leave out. -/
inductive DeclaratorForm where
  /-- A name is required. -/
  | named
  /-- A name is required, and a bit-field may follow. -/
  | member
  /-- A name may be there. -/
  | parameter
  /-- There is no name and no initializer. -/
  | abstract
  deriving DecidableEq, Repr

/-- Whether a form requires a name. -/
def DeclaratorForm.requiresName : DeclaratorForm → Bool
  | .named | .member => true
  | _ => false

/-- What follows the name of a declarator and changes its type. -/
inductive Suffix where
  | function (parameters : List Encoding) (ellipsis const : Bool)
  | array (length : Option Nat)
  deriving Repr

/-- The type of what is declared with a suffix, given the type of what it yields. -/
def Suffix.apply (target : Encoding) : Suffix → Encoding
  | .function parameters ellipsis const =>
    let function := Encoding.function parameters ellipsis target
    if const then function.constOf else function
  | .array length => target.arrayOf length

/-- Whether the first suffix makes a function. -/
def declaresFunction : List Suffix → Bool
  | .function .. :: _ => true
  | _ => false

/-- A parsed declarator. -/
structure Declared where
  tree : Tree.Plain
  name : Option String
  type : Encoding
  isFunction : Bool

/-! ## In front of the name -/

/-- The type behind qualifiers, the first of which applies first. -/
def qualifiedBy (target : Encoding) (qualifiers : List Tree.Plain) : Encoding :=
  qualifiers.foldl
    (fun type qualifier =>
      if qualifier.isToken .kwConst then type.constOf else type.volatileOf) target

/-- Pointers and references in front of a declared name, with the type they make. -/
def pointers (base : Encoding) : Production (List Tree.Plain × Encoding) :=
  repeatFrom ([], base) fun (elements, type) => do
    match ← kind with
    | .star =>
      let star ← take
      let qualifiers ← takeRun Token.Kind.isCvQualifier
      return .again (elements ++ star :: qualifiers, qualifiedBy type.pointerTo qualifiers)
    | .amp => return .again (elements ++ [← take], type.referenceTo)
    | _ => return .done (elements, type)

/-- The tokens with which a declared name may begin. -/
def startsDeclaredName (kind : Token.Kind) : Bool :=
  [.identifier, .colonColon, .tilde, .kwOperator].contains kind

/-- The name of a declarator, where its form admits one and one is there. -/
def declaredName (g : Productions) (form : DeclaratorForm) : Production (Option Encoded) := do
  if form != .abstract && startsDeclaredName (← kind) then return some (← name g false)
  else if form.requiresName then fail .identifierExpected []
  else return none

/-! ## Behind the name -/

/-- Parameters with the types they have. -/
structure ParameterClause where
  opening : Tree.Plain
  parameters : Tree.Plain
  closing : Tree.Plain
  types : List Encoding
  ellipsis : Bool

/-- What a parameter list has so far. -/
structure ParameterItems where
  elements : List Tree.Plain
  types : List Encoding
  ellipsis : Bool

/-- Parameters and commas, and an ellipsis as the last element.  The comma in front of
the ellipsis may be missing. -/
def parameterItems (g : Productions) : Production ParameterItems :=
  repeatFrom (ParameterItems.mk [] [] false) fun items => do
    match ← take? .ellipsis with
    | some dots =>
      return .done { items with elements := items.elements ++ [dots], ellipsis := true }
    | none =>
      let parameter ← g.parameter
      let next : ParameterItems :=
        { items with
          elements := items.elements ++ [parameter.tree]
          types := items.types ++ [parameter.encoding] }
      match ← take? .comma with
      | some comma => return .again { next with elements := next.elements ++ [comma] }
      | none =>
        match ← take? .ellipsis with
        | some dots =>
          return .done { next with elements := next.elements ++ [dots], ellipsis := true }
        | none => return .done next

/-- A parameter list in parentheses.  A single `void` is no parameter. -/
def parameterClause (g : Productions) : Production ParameterClause := do
  let opening ← expect .openParen "("
  let items ← if ← sees .closeParen then pure (ParameterItems.mk [] [] false)
    else parameterItems g
  let closing ← expect .closeParen ")"
  let types := if items.types = [.builtin 'v'] then [] else items.types
  return ⟨opening, Tree.seq items.elements, closing, types, items.ellipsis⟩

/-- The types that a function may throw. -/
def thrownTypes (g : Productions) : Production (List Tree.Plain) :=
  repeatFrom [] fun types => do
    if ← sees .closeParen then return .done types
    else
      let type ← g.typeId
      match ← take? .comma with
      | some comma => return .again (types ++ [type.tree, comma])
      | none => return .done (types ++ [type.tree])

/-- The exception specification behind a parameter list, if there is one. -/
def exceptionSpecification (g : Productions) : Production (List Tree.Plain) := do
  match ← take? .kwThrow with
  | none => return []
  | some keyword =>
    let opening ← expect .openParen "("
    let types ← thrownTypes g
    let closing ← expect .closeParen ")"
    return [keyword, opening, Tree.seq types, closing]

/-- A parameter list and what may follow it. -/
def functionSuffix (g : Productions) : Production (List Tree.Plain × Suffix) := do
  let clause ← parameterClause g
  let qualifiers ← takeRun Token.Kind.isCvQualifier
  let exceptions ← exceptionSpecification g
  let isConst := qualifiers.any (·.isToken .kwConst)
  return ([clause.opening, clause.parameters, clause.closing] ++ qualifiers ++ exceptions,
    .function clause.types clause.ellipsis isConst)

/-- The length of an array as its encoding tells it: that of a plain decimal literal. -/
def arrayLength? {ι : Type} (size : Tree ι) : Option Nat :=
  if size.isToken .integerLiteral then boundedNumeral? 10 (capacity 64) size.text.toList else none

/-- The length of an array in brackets. -/
def arraySuffix (g : Productions) : Production (List Tree.Plain × Suffix) := do
  let opening ← take
  let size ← if ← sees .closeBracket then pure Tree.nil else g.expression
  let closing ← expect .closeBracket "]"
  return ([opening, size, closing], .array (arrayLength? size))

/-- What was read behind the name of a declarator. -/
structure Suffixes where
  elements : List Tree.Plain
  suffixes : List Suffix
  /-- Whether arguments in parentheses initialize what is declared. -/
  initialized : Bool

/-- The arguments in parentheses that initialize an object. -/
def initializerArguments (g : Productions) : Production (List Tree.Plain) := do
  let opening ← take
  let operands ← arguments g
  let closing ← expect .closeParen ")"
  return [opening, operands, closing]

/-- Parameter lists and array lengths behind a name, or the arguments that initialize
the object named. -/
def suffixes (g : Productions) (form : DeclaratorForm) : Production Suffixes :=
  repeatFrom (Suffixes.mk [] [] false) fun read => do
    match ← kind with
    | .openParen =>
      if form.requiresName && read.suffixes.isEmpty && !(← asks atParameters) then
        let elements ← initializerArguments g
        return .done { read with elements := read.elements ++ elements, initialized := true }
      else
        let (elements, suffix) ← functionSuffix g
        return .again { read with
          elements := read.elements ++ elements, suffixes := read.suffixes ++ [suffix] }
    | .openBracket =>
      let (elements, suffix) ← arraySuffix g
      return .again { read with
        elements := read.elements ++ elements, suffixes := read.suffixes ++ [suffix] }
    | _ => return .done read

/-! ## Initializers -/

/-- The items of a braced initializer up to its closing brace. -/
def initializerItems (g : Productions) : Production (List Tree.Plain) :=
  repeatFrom [] fun items => do
    if ← sees .closeBrace then return .done items
    else
      let item ← if ← sees .openBrace then nested g.initializers else g.assignment
      match ← take? .comma with
      | some comma => return .again (items ++ [item, comma])
      | none => return .done (items ++ [item])

/-- A braced initializer. -/
def initializerList (g : Productions) : Production Tree.Plain := do
  let opening ← take
  let items ← initializerItems g
  let closing ← expect .closeBrace "\x7d"
  return Tree.list .brace [opening, Tree.seq items, closing]

/-- The width of a bit-field, where the form admits one. -/
def bitField (g : Productions) (form : DeclaratorForm) (isFunction : Bool) :
    Production (List Tree.Plain) := do
  if form == .member && !isFunction && (← sees .colon) then
    let colon ← take
    let width ← conditionalExpression g
    return [colon, width]
  else return []

/-- The initializer behind `=`, where the form admits one. -/
def initializer (g : Productions) (form : DeclaratorForm) : Production (List Tree.Plain) := do
  if form == .abstract then return []
  else
    match ← take? .equals with
    | none => return []
    | some equals =>
      let value ← if ← sees .openBrace then g.initializers else g.assignment
      return [equals, value]

/-- A declarator behind a type. -/
def declarator (g : Productions) (base : Encoding) (form : DeclaratorForm) :
    Production Declared := do
  let (front, pointed) ← pointers base
  let named ← declaredName g form
  let behind ← suffixes g form
  let isFunction := declaresFunction behind.suffixes
  let type := behind.suffixes.foldr (fun suffix target => suffix.apply target) pointed
  let width ← if behind.initialized then pure [] else bitField g form isFunction
  let value ← if behind.initialized then pure [] else initializer g form
  let elements := front ++ (named.map (·.tree)).toList ++ behind.elements ++ width ++ value
  let tree := Tree.encodedList .declarator (named.map (·.encoding)) (some type) elements
  return ⟨tree, named.bind (lastIdentifier? ·.tree), type, isFunction⟩

end Grammar
end CppNames
