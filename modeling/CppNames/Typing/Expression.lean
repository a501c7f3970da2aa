import CppNames.Call.Resolve
import CppNames.Typing.Literal

namespace CppNames
namespace Typing

/-!
# Types of expressions

Most expressions have a type that their parts and the declarations of their names decide.
An expression of any other kind has none, which is no mistake.  The type of a call is the
result type of the function that it chooses; where calls are not resolved, it is the
result type that the callee by itself gives away.
-/

/-- A computation of a type that may not be known. -/
abbrev Typed (α : Type) := OptionT Outcome α

/-- Goes on with a value, if there is one. -/
def given {α : Type} (value : Option α) : Typed α := OptionT.mk (.ok value)

/-- The outcome of a computation, whether it has a value or not. -/
def attempt {α : Type} (computation : Typed α) : Typed (Option α) :=
  OptionT.lift computation.run

/-- The type of an expression, as far as it is known. -/
abbrev TypeOf := Node → Typed Encoding

/-! ## Names -/

/-- The type of a symbol that is used as a value. -/
def ofSymbol (table : Table) (id : SymbolId) : Typed Encoding := do
  given (← table.symbol id).valueType?

/-- The type of what a name stands for. -/
def ofName (site : Site) (name : Encoding) : Typed Encoding := do
  ofSymbol site.table (← OptionT.mk (site.single? name {}))

/-- What a scope tells about the object of a member function: a class is the object's
type, and outside all classes there is no object. -/
def objectOf : Region → Option (Option Encoding)
  | .classBody name .. => some (some name.pointerTo)
  | .namespaceBody .. => some none
  | _ => none

/-- The type of `this`: a pointer to the class around the place. -/
def ofThis (site : Site) : Typed Encoding := do
  given (← site.innermost? objectOf).join

/-- The type of a token. -/
def ofToken (site : Site) (token : Token) : Typed Encoding :=
  match token.kind with
  | .integerLiteral => pure (integerType token.text)
  | .floatLiteral => pure (floatingType token.text)
  | .charLiteral => pure (characterType token.text)
  | .stringLiteral => pure (characterType token.text).constOf.pointerTo
  | .kwTrue | .kwFalse => pure (.builtin 'b')
  | .kwThis => ofThis site
  | .identifier => ofName site (.simpleName token.text)
  | _ => failure

/-! ## Operators -/

/-- Whether an operator compares its operands or joins truths. -/
def isTruth (operator : String) : Bool :=
  ["<", ">", "<=", ">=", "==", "!=", "&&", "||"].contains operator

/-- The type of an arithmetic operator on values, of which pointers can be moved and
subtracted. -/
def ofOperands (operator : String) (left right : Encoding) : Option Encoding :=
  match left.isPointer, right.isPointer with
  | true, true => if operator == "-" then some (.builtin 'l') else none
  | true, false => if operator == "+" || operator == "-" then some left else none
  | false, true => if operator == "+" then some right else none
  | false, false => left.common? right

/-- The type of a binary expression. -/
def ofInfix (typeOf : TypeOf) (node : Node) : Typed Encoding := do
  let operator := node.second.text
  if node.second.isNil then failure
  else if isTruth operator then return .builtin 'b'
  else
    let left := (← typeOf node.first).decayed
    if operator == "<<" || operator == ">>" then given left.promoted?
    else
      let right := (← typeOf node.third).decayed
      given (ofOperands operator left right)

/-- The type of a unary operator on an operand of a type. -/
def ofOperand (operator : String) (operand : Encoding) : Option Encoding :=
  match operator with
  | "!" => some (.builtin 'b')
  | "*" => operand.target?
  | "&" => some operand.withoutReference.pointerTo
  | "++" | "--" => some operand
  | _ => operand.promoted?

/-- The type of a unary expression. -/
def ofUnary (typeOf : TypeOf) (node : Node) : Typed Encoding := do
  if node.first.isNil then failure
  else given (ofOperand node.first.text (← typeOf node.second))

/-- The type of an allocation: a pointer to what is allocated, or to the elements of an
array. -/
def ofNew (node : Node) : Typed Encoding := do
  let allocated ← given node.second.type?
  return (allocated.element?.getD allocated).pointerTo

/-! ## Calls and members -/

/-- The type of a member access. -/
def ofMember (site : Site) (typeOf : TypeOf) (node : Node) : Typed Encoding := do
  let members ← OptionT.mk (Call.members? site (fun object => (typeOf object).run) node)
  ofSymbol site.table (← given members.single?)

/-- The result type of a call through a value of a type.  Constructors have no result
type. -/
def resultOf (type : Encoding) : Typed Encoding := do
  let function ← given type.called?
  let (_, result) ← OptionT.mk function.functionParts?
  if result = .builtin '?' then failure else return result

/-- The result type of a function. -/
def resultOfSymbol (table : Table) (id : SymbolId) : Typed Encoding := do
  resultOf (← table.symbol id).type

/-- Whether all of some functions have a given result type. -/
def allReturn (table : Table) (type : Encoding) : List SymbolId → Outcome Bool
  | [] => .ok true
  | id :: rest => do
    if (← (resultOfSymbol table id).run) = some type then allReturn table type rest
    else return false

/-- The result type that all functions of a name have in common. -/
def sharedResult (site : Site) (callee : Node) : Typed Encoding := do
  let name ← given callee.calleeName?
  let found ← OptionT.mk (site.found? name {})
  match found.ids with
  | [] => failure
  | first :: rest =>
    let type ← resultOfSymbol site.table first
    if ← allReturn site.table type rest then return type else failure

/-- The type of a call as its callee by itself gives it away. -/
def ofCallee (site : Site) (typeOf : TypeOf) (callee : Node) : Typed Encoding := do
  if callee.isNil then failure
  else
    match ← attempt (typeOf callee) with
    | some type => resultOf type
    | none => sharedResult site callee

/-- The type of a call. -/
def ofCall (site : Site) (resolveCalls : Bool) (typeOf : TypeOf) (call : Node) :
    Typed Encoding := do
  if resolveCalls then
    match ← OptionT.lift (Call.resolveWith (fun part => (typeOf part).run) site call).run with
    | .ok id => resultOfSymbol site.table id
    | .error _ => ofCallee site typeOf call.first
  else ofCallee site typeOf call.first

/-! ## Expressions -/

/-- The type of an expression, given the types of its parts. -/
def ofNode (site : Site) (resolveCalls : Bool) (typeOf : TypeOf) (node : Node) :
    Typed Encoding :=
  match node with
  | .nil => failure
  | .leaf _ token => ofToken site token
  | .cell _ construct name type .. =>
    match construct with
    | .name => do ofName site (← given name)
    | .parenExpr => typeOf node.second
    | .infixExpr => ofInfix typeOf node
    | .assignExpr | .postfixExpr => typeOf node.first
    | .condExpr | .commaExpr => typeOf node.third
    | .unaryExpr => ofUnary typeOf node
    | .throwExpr | .deleteExpr => pure (.builtin 'v')
    | .sizeofExpr => pure (.builtin 'U' ++ .builtin 'l')
    | .newExpr => ofNew node
    | .castExpr => given node.second.type?
    | .fstyleCastExpr => given type
    | .arrayExpr => do given (← typeOf node.first).target?
    | .funcallExpr => ofCall site resolveCalls typeOf node
    | .dotMemberExpr | .arrowMemberExpr => ofMember site typeOf node
    | _ => failure

/-- The type of an expression of at most a given size. -/
def within (site : Site) (resolveCalls : Bool) : Nat → TypeOf
  | 0, _ => failure
  | size + 1, node => ofNode site resolveCalls (within site resolveCalls size) node

end Typing

/-- The type of an expression at a site, as far as it is known. -/
def typeOf? (site : Site) (resolveCalls : Bool) (node : Node) : Outcome (Option Encoding) :=
  (Typing.within site resolveCalls (node.size + 1) node).run

/-- The symbol that a call at a site calls. -/
def resolveCall (site : Site) (call : Node) : Outcome (Except CallError SymbolId) :=
  (Call.resolveWith (typeOf? site true) site call).run

end CppNames
