import CppNames.Constant.Literal
import CppNames.Constant.Size
import CppNames.Lookup.Site

namespace CppNames
namespace Constant

/-!
# Values of expressions

An integral constant expression has a value: a word of 64 bits with a sign, on which
arithmetic wraps.  Any other expression has none, and neither has an expression one of
whose evaluated parts has none.  Of a choice only the chosen part is evaluated, and the
right operand of `&&` and `||` only where the left one does not decide.
-/

/-- The value of a truth. -/
def ofBool (truth : Bool) : Int64 := if truth then 1 else 0

/-- The value of a shift, which is defined for counts below the width of a word. -/
def shifted? (shift : Int64 → Int64 → Int64) (value count : Int64) : Option Int64 :=
  if 0 ≤ count ∧ count < 64 then some (shift value count) else none

/-- The value of a quotient or a remainder, which is undefined for a divisor of zero. -/
def divided? (divide : Int64 → Int64 → Int64) (left right : Int64) : Option Int64 :=
  if right = 0 then none else some (divide left right)

/-- The value of a binary operator on two values. -/
def binary? (operator : String) (left right : Int64) : Option Int64 :=
  match operator with
  | "+" => some (left + right)
  | "-" => some (left - right)
  | "*" => some (left * right)
  | "/" => divided? (· / ·) left right
  | "%" => divided? (· % ·) left right
  | "<<" => shifted? (· <<< ·) left right
  | ">>" => shifted? (· >>> ·) left right
  | "<" => some (ofBool (left < right))
  | ">" => some (ofBool (right < left))
  | "<=" => some (ofBool (left ≤ right))
  | ">=" => some (ofBool (right ≤ left))
  | "==" => some (ofBool (left == right))
  | "!=" => some (ofBool (left != right))
  | "&" => some (left &&& right)
  | "|" => some (left ||| right)
  | "^" => some (left ^^^ right)
  | "&&" | "||" => some (ofBool (right != 0))
  | _ => none

/-- The value that the left operand alone gives to `&&` and `||`, where it decides. -/
def decided? (operator : String) (left : Int64) : Option Int64 :=
  match operator with
  | "&&" => if left = 0 then some 0 else none
  | "||" => if left = 0 then none else some 1
  | _ => none

/-- The value of a unary operator on a value. -/
def unary? (operator : String) (operand : Int64) : Option Int64 :=
  match operator with
  | "+" => some operand
  | "-" => some (-operand)
  | "!" => some (ofBool (operand == 0))
  | "~" => some (~~~operand)
  | _ => none

/-- A value cut to a number of bits and read with a sign. -/
def signedBits (bits : Nat) (value : Int64) : Int64 := Int64.ofInt (value.toInt.bmod (capacity bits))

/-- A value cut to a number of bits and read without a sign. -/
def unsignedBits (bits : Nat) (value : Int64) : Int64 :=
  Int64.ofInt (value.toInt % (capacity bits : Int))

/-- A value converted to an integral type. -/
def converted? (type : Encoding) (value : Int64) : Option Int64 :=
  match String.ofList (type.stripCv.bytes.map fun byte => Char.ofNat byte.toNat) with
  | "b" => some (ofBool (value != 0))
  | "c" | "Sc" => some (signedBits 8 value)
  | "Uc" => some (unsignedBits 8 value)
  | "s" | "w" => some (signedBits 16 value)
  | "Us" => some (unsignedBits 16 value)
  | "i" | "l" => some (signedBits 32 value)
  | "Ui" | "Ul" => some (unsignedBits 32 value)
  | "j" | "Uj" => some value
  | _ => none

/-- What evaluating an expression gives: its value, nothing, or no answer at all. -/
abbrev Evaluation := Outcome (Option Int64)

/-- Goes on with a value, if there is one. -/
def andThen (first : Evaluation) (next : Int64 → Evaluation) : Evaluation := do
  match ← first with
  | some value => next value
  | none => return none

/-- The value of a constant or an enumerator. -/
def named (site : Site) (name : Encoding) : Evaluation := do
  match ← site.single? name {} with
  | some id => return (← site.table.symbol id).kind.value?
  | none => return none

/-- The value of a token. -/
def ofToken (site : Site) (token : Token) : Evaluation :=
  match token.kind with
  | .integerLiteral => .ok (integer? token.text)
  | .floatLiteral => .ok (floating? token.text)
  | .charLiteral => .ok (character? token.text)
  | .kwTrue => .ok (some 1)
  | .kwFalse => .ok (some 0)
  | .identifier => named site (.simpleName token.text)
  | _ => .ok none

/-- The size of the type that a `sizeof` names, as a value. -/
def sizeofValue? (operand : Node) : Option Int64 := do
  let type ← if operand.isA .typeId then operand.type? else none
  let size ← sizeOf? type
  if (size : Int) ≤ greatest then some (Int64.ofNat size) else none

/-- Converts a value to a type that a node carries. -/
def convertedTo (type : Option Encoding) (value : Int64) : Evaluation :=
  .ok (type.bind (converted? · value))

/-- The value of a binary expression. -/
def ofInfix (value : Node → Evaluation) (node : Node) : Evaluation :=
  let operator := node.second.text
  andThen (value node.first) fun left =>
    match decided? operator left with
    | some result => .ok (some result)
    | none => andThen (value node.third) fun right => .ok (binary? operator left right)

/-- The value of a choice. -/
def ofChoice (value : Node → Evaluation) (node : Node) : Evaluation :=
  andThen (value node.first) fun condition =>
    value (if condition = 0 then node.nth 4 else node.third)

/-- The value of a cast written like a call, which has exactly one argument. -/
def ofCallCast (value : Node → Evaluation) (node : Node) : Evaluation :=
  if node.third.length = 1 then andThen (value node.third.first) (convertedTo node.type?)
  else .ok none

/-- The value of an expression, given the values of its parts.  Casts and `sizeof` have
values only where they are asked for. -/
def valueOf (site : Site) (extended : Bool) (value : Node → Evaluation) (node : Node) :
    Evaluation :=
  match node with
  | .nil => .ok none
  | .leaf _ token => ofToken site token
  | .cell _ construct name .. =>
    match construct with
    | .name => name.elim (.ok none) (named site)
    | .parenExpr => value node.second
    | .infixExpr => ofInfix value node
    | .unaryExpr =>
      andThen (value node.second) fun operand => .ok (unary? node.first.text operand)
    | .condExpr => ofChoice value node
    | .castExpr =>
      if extended then andThen (value (node.nth 3)) (convertedTo node.second.type?)
      else .ok none
    | .fstyleCastExpr => if extended then ofCallCast value node else .ok none
    | .sizeofExpr => .ok (if extended then sizeofValue? node.third else none)
    | _ => .ok none

/-- The value of an expression of at most a given size. -/
def valueWithin (site : Site) (extended : Bool) : Nat → Node → Evaluation
  | 0, _ => .ok none
  | size + 1, node => valueOf site extended (valueWithin site extended size) node

/-- The value of an expression at a site. -/
def evaluate (site : Site) (extended : Bool) (node : Node) : Evaluation :=
  valueWithin site extended (node.size + 1) node

end Constant
end CppNames
