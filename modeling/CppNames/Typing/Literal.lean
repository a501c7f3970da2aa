import CppNames.Encoding.Basic

namespace CppNames
namespace Typing

/-!
# Types of literals

The suffix of a number and the prefix of a character or a string decide its type.
-/

/-- Whether a character may stand in the suffix of an integer. -/
def isIntegerSuffix (c : Char) : Bool := c == 'u' || c == 'U' || c == 'l' || c == 'L'

/-- The type of an integer literal. -/
def integerType (text : String) : Encoding :=
  let suffix := text.toList.reverse.takeWhile isIntegerSuffix
  let isUnsigned := suffix.any fun c => c == 'u' || c == 'U'
  let width := match suffix.countP fun c => c == 'l' || c == 'L' with
    | 0 => Encoding.builtin 'i'
    | 1 => Encoding.builtin 'l'
    | _ => Encoding.builtin 'j'
  if isUnsigned then Encoding.builtin 'U' ++ width else width

/-- The type of a floating literal. -/
def floatingType (text : String) : Encoding :=
  match text.toList.getLast? with
  | some 'f' | some 'F' => .builtin 'f'
  | some 'l' | some 'L' => .builtin 'r'
  | _ => .builtin 'd'

/-- The type of a character literal, and of each character of a string literal. -/
def characterType (text : String) : Encoding :=
  if text.toList.head? = some 'L' then .builtin 'w' else .builtin 'c'

end Typing
end CppNames
