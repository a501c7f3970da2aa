import CppNames.Encoding.Basic
import CppNames.Text.Numeral
import CppNames.Token.Kind

namespace CppNames
namespace Grammar

/-!
# Builtin types

A builtin type is spelled by one or more keywords in any order, such as
`unsigned long int`.  The last base and the last sign count.  The `long`s are counted in
one byte, and a type with more of them than that is not read.
-/

/-- The keywords of a builtin type that were read. -/
structure BuiltinWords where
  base : Option Token.Kind := none
  sign : Option Token.Kind := none
  short : Bool := false
  longs : Nat := 0
  any : Bool := false
  deriving DecidableEq, Repr

namespace BuiltinWords

/-- The words with one more keyword, unless there are too many `long`s to count. -/
def add? (words : BuiltinWords) (kind : Token.Kind) : Option BuiltinWords :=
  match kind with
  | .kwSigned | .kwUnsigned => some { words with any := true, sign := some kind }
  | .kwShort => some { words with any := true, short := true }
  | .kwLong =>
    if words.longs + 1 < capacity 8 then
      some { words with any := true, longs := words.longs + 1 }
    else none
  | base => some { words with any := true, base := some base }

/-- The words that some keywords give, unless there are too many `long`s to count. -/
def ofKinds? (kinds : List Token.Kind) : Option BuiltinWords := kinds.foldlM add? {}

/-- The code of the type without its sign. -/
def baseCode (words : BuiltinWords) : Char :=
  match words.base with
  | some .kwBool => 'b'
  | some .kwChar => 'c'
  | some .kwWChar => 'w'
  | some .kwFloat => 'f'
  | some .kwDouble => if 0 < words.longs then 'r' else 'd'
  | some .kwVoid => 'v'
  | _ =>
    if words.short then 's'
    else if 2 ≤ words.longs then 'j'
    else if words.longs = 1 then 'l'
    else 'i'

/-- The type that the words spell.  An explicit sign is part of a type only where it
tells two types apart: `unsigned` always, `signed` for characters. -/
def encoding? (words : BuiltinWords) : Option Encoding :=
  if words.any then
    let base := Encoding.builtin words.baseCode
    some <| match words.sign with
      | some .kwUnsigned => .builtin 'U' ++ base
      | some .kwSigned => if words.baseCode = 'c' then .builtin 'S' ++ base else base
      | _ => base
  else none

/-- The type that the words spell; `int` without words. -/
def encoding (words : BuiltinWords) : Encoding := words.encoding?.getD (.builtin 'i')

end BuiltinWords

end Grammar
end CppNames
