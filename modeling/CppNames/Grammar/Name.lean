import CppNames.Encoding.Render
import CppNames.Grammar.Lookahead
import CppNames.Grammar.Productions

namespace CppNames
namespace Grammar

/-!
# Names

A name is one identifier, or components joined by `::`.  A component is an identifier
with or without template arguments, a destructor's name, or an operator's name.  One
identifier stays a token; every other name is a list.  A name is encoded as it is read.
-/

/-- The elements of a name with the encoding of what they spell. -/
structure NameParts where
  elements : List Tree.Plain
  encodings : List Encoding

/-- One template argument: a type, or an expression whose encoding tells nothing. -/
def templateArgument (g : Productions) : Production Encoded := do
  if ← asks atType then g.typeId
  else return ⟨← g.assignment, .builtin '*'⟩

/-- The template arguments up to their closing `>`, with the commas. -/
def templateArgumentList (g : Productions) : Production NameParts := do
  splitShift
  if ← sees .greater then return ⟨[], []⟩
  repeatFrom (NameParts.mk [] []) fun parts => do
    let argument ← templateArgument g
    let next : NameParts :=
      ⟨parts.elements ++ [argument.tree], parts.encodings ++ [argument.encoding]⟩
    match ← take? .comma with
    | some comma => return .again { next with elements := next.elements ++ [comma] }
    | none => return .done next

/-- Template arguments in angles. -/
def templateArguments (g : Productions) : Production NameParts := do
  let opening ← take
  let arguments ← inTemplate (templateArgumentList g)
  let closing ← expect .greater ">"
  return ⟨[opening, Tree.seq arguments.elements, closing], arguments.encodings⟩

/-- A part of a name: its elements and its encoding. -/
structure NameComponent where
  elements : List Tree.Plain
  encoding : Encoding

/-- An identifier with the template arguments that may follow it.  In a type, a `<`
behind an identifier always opens template arguments. -/
def identifierComponent (g : Productions) (inType : Bool) : Production NameComponent := do
  let identifier ← take
  let text := identifier.text
  let isTemplate ← asks (·.templateNames.contains text)
  if (← sees .less) && (inType || isTemplate) then
    let arguments ← templateArguments g
    return ⟨identifier :: arguments.elements, .templateId text arguments.encodings⟩
  else return ⟨[identifier], .simpleName text⟩

/-- The name of a destructor. -/
def destructorComponent : Production NameComponent := do
  let tilde ← take
  let identifier ← expect .identifier "identifier"
  return ⟨[tilde, identifier], .simpleName ("~" ++ identifier.text)⟩

/-- The elements and the text behind `operator` where a bracket follows it. -/
def bracketOperator (closing : Token.Kind) (shown : String) :
    Production (List Tree.Plain × String) := do
  let first ← take
  let second ← expect closing shown
  return ([first, second], first.text ++ second.text)

/-- The elements and the text behind `operator` where `new` or `delete` follows it. -/
def allocationOperator : Production (List Tree.Plain × String) := do
  let keyword ← take
  if (← sees .openBracket) && (← kindBehind) == .closeBracket then
    let opening ← take
    let closing ← take
    return ([keyword, opening, closing], " " ++ keyword.text ++ "[]")
  else return ([keyword], " " ++ keyword.text)

/-- What follows the keyword `operator`: brackets, `new` or `delete`, any other
punctuator, or the type that a conversion gives. -/
def operatorSuffix (g : Productions) : Production (List Tree.Plain × String) := do
  match ← kind with
  | .openParen => bracketOperator .closeParen ")"
  | .openBracket => bracketOperator .closeBracket "]"
  | .kwNew | .kwDelete => allocationOperator
  | other =>
    if other.isPunctuation then
      let operator ← take
      return ([operator], operator.text)
    else
      let type ← g.typeId
      let shown ← reading type.encoding.readable
      return ([type.tree], " " ++ shown)

/-- The name of an operator. -/
def operatorComponent (g : Productions) : Production NameComponent := do
  let keyword ← take
  let (elements, suffix) ← operatorSuffix g
  return ⟨keyword :: elements, .simpleName ("operator" ++ suffix)⟩

/-- One component of a name. -/
def nameComponent (g : Productions) (inType : Bool) : Production NameComponent := do
  match ← kind with
  | .identifier => identifierComponent g inType
  | .tilde => destructorComponent
  | .kwOperator => operatorComponent g
  | _ => fail .identifierExpected []

/-- The tokens that may follow a `::` inside a name. -/
def continuesName (kind : Token.Kind) : Bool :=
  [.identifier, .tilde, .kwOperator, .kwTemplate].contains kind

/-- Components up to one that no further component follows. -/
def nameComponents (g : Productions) (inType : Bool) (start : NameParts) :
    Production NameParts :=
  repeatFrom start fun parts => do
    let component ← nameComponent g inType
    let next : NameParts :=
      ⟨parts.elements ++ component.elements, parts.encodings ++ [component.encoding]⟩
    if (← sees .colonColon) && continuesName (← kindBehind) then
      let colons ← take
      let keyword ← take? .kwTemplate
      return .again { next with elements := next.elements ++ [colons] ++ keyword.toList }
    else return .done next

/-- The tree of a name: its only element, where that is an identifier, or a list. -/
def nameTree (elements : List Tree.Plain) (encoding : Encoding) : Tree.Plain :=
  let list := Tree.encodedList .name (some encoding) none elements
  match elements with
  | [single] => if single.isToken .identifier then single else list
  | _ => list

/-- A name.  Inside a type, a `<` behind an identifier always opens template
arguments; elsewhere the identifier has to name a template. -/
def name (g : Productions) (inType : Bool) : Production Encoded := do
  let start : NameParts := match ← take? .colonColon with
    | some colons => ⟨[colons], [.globalScope]⟩
    | none => ⟨[], []⟩
  let parts ← nameComponents g inType start
  let encoding := Encoding.qualified parts.encodings
  return ⟨nameTree parts.elements encoding, encoding⟩

end Grammar
end CppNames
