import CppNames.Token.Kind

namespace CppNames
namespace Grammar

/-!
# Precedence of binary operators

Binary operators have eleven levels of precedence, from `||` at one to the pointers to
members at eleven.  Inside a list of template arguments `>` and `>>` close the list and
are no operators.
-/

/-- The level at which a token is a binary operator, if it is one. -/
def precedence? (kind : Token.Kind) (inTemplateArguments : Bool) : Option Nat :=
  match kind with
  | .barBar => some 1
  | .ampAmp => some 2
  | .bar => some 3
  | .caret => some 4
  | .amp => some 5
  | .equalsEquals | .exclaimEquals => some 6
  | .greater => if inTemplateArguments then none else some 7
  | .less | .lessEquals | .greaterEquals => some 7
  | .greaterGreater => if inTemplateArguments then none else some 8
  | .lessLess => some 8
  | .plus | .minus => some 9
  | .star | .slash | .percent => some 10
  | .dotStar | .arrowStar => some 11
  | _ => none

/-- The level below all binary operators, at which a whole operand of a conditional
expression is read. -/
def lowest : Nat := 0

end Grammar
end CppNames
