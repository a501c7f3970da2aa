import CppNames.Grammar.Builtin
import CppNames.Grammar.Name
import CppNames.Grammar.Precedence

namespace CppNames
namespace Grammar

/-!
# Expressions

Binary operators are read by climbing precedences: an operand, then every operator above
the level that is asked for, each with a right operand of its own level.  Chains that
grow to the left count each link as one level of nesting.
-/

/-- Assignment expressions and the commas between them, up to a closing parenthesis. -/
def arguments (g : Productions) : Production Tree.Plain := do
  if ← sees .closeParen then return Tree.nil
  else
    let items ← inParentheses (commaSeparated do return [← g.assignment])
    return Tree.seq items

/-- A cast written like a call, behind its type. -/
def callCast (g : Productions) (type : Tree.Plain) (encoding : Encoding) :
    Production Tree.Plain := do
  let opening ← expect .openParen "("
  let operands ← arguments g
  let closing ← expect .closeParen ")"
  return Tree.encodedList .fstyleCastExpr none (some encoding)
    [type, opening, operands, closing]

/-- One tree for some elements: the only one, or their list. -/
def grouped : List Tree.Plain → Tree.Plain
  | [single] => single
  | elements => Tree.seq elements

/-! ## Primary expressions -/

/-- An expression in parentheses. -/
def parenthesized (g : Productions) : Production Tree.Plain := do
  let opening ← take
  let inner ← inParentheses g.expression
  let closing ← expect .closeParen ")"
  return Tree.list .parenExpr [opening, inner, closing]

/-- A `typeid` of a type or an expression. -/
def typeidOperand (g : Productions) : Production Tree.Plain := do
  let keyword ← take
  let opening ← expect .openParen "("
  let operand ← if ← asks atType then (·.tree) <$> g.typeId else g.expression
  let closing ← expect .closeParen ")"
  return Tree.list .typeidExpr [keyword, opening, operand, closing]

/-- A cast to a builtin type. -/
def builtinCast (g : Productions) : Production Tree.Plain := do
  let words ← takeRun Token.Kind.isBuiltinType
  let spelled ← counting (BuiltinWords.ofKinds? (words.filterMap Tree.kind?))
  callCast g (grouped words) spelled.encoding

/-- A name, or the cast that the name of a type in front of a parenthesis makes. -/
def nameOrCast (g : Productions) : Production Tree.Plain := do
  let named ← name g false
  let last ← reading named.encoding.lastName
  let plain ← reading last.templateName
  let isType ← asks fun state => plain.identifier?.any state.typeNames.contains
  if isType && (← sees .openParen) then callCast g named.tree named.encoding
  else return named.tree

/-- A literal, a name, or an expression in parentheses. -/
def primary (g : Productions) : Production Tree.Plain := do
  let next ← kind
  if next.isLiteral then take
  else
    match next with
    | .kwTrue | .kwFalse | .kwThis => take
    | .openParen => parenthesized g
    | .kwTypeid => typeidOperand g
    | .identifier | .colonColon | .tilde | .kwOperator => nameOrCast g
    | other => if other.isBuiltinType then builtinCast g else fail .expressionExpected []

/-! ## Postfix, unary and binary expressions -/

/-- Extends an expression by the operator behind it, if it is a postfix operator. -/
def postfixLink (g : Productions) (left : Tree.Plain) : Production (Turn Tree.Plain) := do
  match ← kind with
  | .openBracket =>
    descend
    let opening ← take
    let index ← g.expression
    let closing ← expect .closeBracket "]"
    return .again (Tree.list .arrayExpr [left, opening, index, closing])
  | .openParen =>
    descend
    let opening ← take
    let operands ← arguments g
    let closing ← expect .closeParen ")"
    return .again (Tree.list .funcallExpr [left, opening, operands, closing])
  | .dot =>
    descend
    let operator ← take
    let member ← name g false
    return .again (Tree.list .dotMemberExpr [left, operator, member.tree])
  | .arrow =>
    descend
    let operator ← take
    let member ← name g false
    return .again (Tree.list .arrowMemberExpr [left, operator, member.tree])
  | .plusPlus | .minusMinus =>
    descend
    let operator ← take
    return .again (Tree.list .postfixExpr [left, operator])
  | _ => return .done left

/-- A primary expression and the postfix operators behind it. -/
def postfixExpression (g : Productions) : Production Tree.Plain :=
  chained do repeatFrom (← primary g) (postfixLink g)

/-- A cast in front of its operand. -/
def prefixCast (g : Productions) : Production Tree.Plain := do
  let opening ← take
  let type ← g.typeId
  let closing ← expect .closeParen ")"
  let operand ← g.cast
  return Tree.list .castExpr [opening, type.tree, closing, operand]

/-- A unary operator in front of its operand. -/
def unary (g : Productions) : Production Tree.Plain := do
  let operator ← take
  let operand ← g.cast
  return Tree.list .unaryExpr [operator, operand]

/-- A `sizeof` of a type in parentheses or of an expression. -/
def sizeofOperand (g : Productions) : Production Tree.Plain := do
  let keyword ← take
  if ← asks atParenthesizedType then
    let opening ← take
    let type ← g.typeId
    let closing ← expect .closeParen ")"
    return Tree.list .sizeofExpr [keyword, opening, type.tree, closing]
  else
    let operand ← g.cast
    return Tree.list .sizeofExpr [keyword, operand]

/-- A `new` of a type, with or without arguments. -/
def newObject (g : Productions) : Production Tree.Plain := do
  let keyword ← take
  let type ← g.typeId
  match ← take? .openParen with
  | some opening =>
    let operands ← arguments g
    let closing ← expect .closeParen ")"
    return Tree.list .newExpr [keyword, type.tree, opening, operands, closing]
  | none => return Tree.list .newExpr [keyword, type.tree]

/-- A `delete` of an object or an array. -/
def deleteObject (g : Productions) : Production Tree.Plain := do
  let keyword ← take
  if (← sees .openBracket) && (← kindBehind) == .closeBracket then
    let opening ← take
    let closing ← take
    let operand ← g.cast
    return Tree.list .deleteExpr [keyword, opening, closing, operand]
  else
    let operand ← g.cast
    return Tree.list .deleteExpr [keyword, operand]

/-- The operators that stand in front of their operand. -/
def isUnaryOperator (kind : Token.Kind) : Bool :=
  [.star, .amp, .plus, .minus, .exclaim, .tilde, .plusPlus, .minusMinus].contains kind

/-- A cast or unary expression. -/
def castExpression (g : Productions) : Production Tree.Plain :=
  nested do
    let next ← kind
    if isUnaryOperator next then unary g
    else
      match next with
      | .openParen =>
        if ← asks atParenthesizedType then prefixCast g else postfixExpression g
      | .kwSizeof => sizeofOperand g
      | .kwNew => newObject g
      | .kwDelete => deleteObject g
      | _ => postfixExpression g

/-- The level of the next token as a binary operator. -/
def nextPrecedence? : Production (Option Nat) := do
  let state ← get
  return precedence? (kindOf state.tokens) (0 < state.templateDepth)

/-- Extends an expression by the binary operator behind it, if it is above a level. -/
def binaryLink (g : Productions) (level : Nat) (left : Tree.Plain) :
    Production (Turn Tree.Plain) := do
  match ← nextPrecedence? with
  | none => return .done left
  | some precedence =>
    if precedence ≤ level then return .done left
    else
      descend
      let operator ← take
      let right ← g.binary precedence
      return .again (Tree.list .infixExpr [left, operator, right])

/-- An operand and the binary operators above a level behind it. -/
def binaryExpression (g : Productions) (level : Nat) : Production Tree.Plain :=
  chained do repeatFrom (← castExpression g) (binaryLink g level)

/-! ## Conditional, assignment and comma expressions -/

/-- A binary expression, or a choice between two expressions by it. -/
def conditionalExpression (g : Productions) : Production Tree.Plain := do
  let condition ← binaryExpression g lowest
  match ← take? .question with
  | none => return condition
  | some question =>
    let chosen ← g.expression
    let colon ← expect .colon ":"
    let otherwise ← nested g.assignment
    return Tree.list .condExpr [condition, question, chosen, colon, otherwise]

/-- A `throw` with or without an operand. -/
def throwExpression (g : Productions) (keyword : Tree.Plain) : Production Tree.Plain := do
  let operand ← if ← asks atExpression then nested g.assignment else pure Tree.nil
  return Tree.list .throwExpr [keyword, operand]

/-- Whether the next token assigns.  Inside template arguments a `>>=` closes two
lists and assigns nothing. -/
def atAssignment (state : State) : Bool :=
  let kind := kindOf state.tokens
  kind.isAssignmentOperator && !(0 < state.templateDepth && kind == .greaterGreaterEquals)

/-- A `throw`, a conditional expression, or an assignment to one. -/
def assignmentExpression (g : Productions) : Production Tree.Plain := do
  match ← take? .kwThrow with
  | some keyword => throwExpression g keyword
  | none =>
    let left ← conditionalExpression g
    if ← asks atAssignment then
      let operator ← take
      let right ← nested g.assignment
      return Tree.list .assignExpr [left, operator, right]
    else return left

/-- Extends an expression by the comma behind it, if there is one. -/
def commaLink (g : Productions) (left : Tree.Plain) : Production (Turn Tree.Plain) := do
  if ← sees .comma then
    descend
    let comma ← take
    let right ← assignmentExpression g
    return .again (Tree.list .commaExpr [left, comma, right])
  else return .done left

/-- One or more assignment expressions joined by commas. -/
def commaExpression (g : Productions) : Production Tree.Plain :=
  chained do repeatFrom (← assignmentExpression g) (commaLink g)

end Grammar
end CppNames
