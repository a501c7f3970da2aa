import CppNames.Text.Binary64

namespace CppNames
namespace Constant

/-!
# Values of literals

Values are words of 64 bits with a sign.  A literal that the scanner accepts need not
have a value: octal digits may be too large, and an escape may lack its digits.
-/

/-- The text without the characters at its end that satisfy a test. -/
def trimEnd (test : Char → Bool) (text : List Char) : List Char :=
  (text.reverse.dropWhile test).reverse

/-- The value of an integer literal, which wraps where it exceeds the signed values. -/
def integer? (text : String) : Option Int64 :=
  let digits := trimEnd "uUlL".toList.contains text.toList
  let value := match digits with
    | '0' :: 'x' :: hex => boundedNumeral? 16 (capacity 64) hex
    | '0' :: 'X' :: hex => boundedNumeral? 16 (capacity 64) hex
    | '0' :: next :: rest => boundedNumeral? 8 (capacity 64) (next :: rest)
    | _ => boundedNumeral? 10 (capacity 64) digits
  value.map Int64.ofNat

/-- The greatest and the least value. -/
def greatest : Int := (capacity 63 : Int) - 1
def least : Int := -(capacity 63 : Int)

/-- The value nearest to a whole number. -/
def clamp (value : Int) : Int64 := Int64.ofInt (max least (min greatest value))

/-- The sign at the front of a text, and what follows it. -/
def splitSign (text : List Char) : Bool × List Char :=
  match text with
  | '-' :: rest => (true, rest)
  | '+' :: rest => (false, rest)
  | _ => (false, text)

/-- A number with a sign in front of it. -/
def withSign (negative : Bool) (value : Int) : Int := if negative then -value else value

/-- The value of a floating literal cut to a whole number.  The words for infinity and
for no number count as literals. -/
def floating? (text : String) : Option Int64 :=
  let (negative, digits) := splitSign (trimEnd "fFlL".toList.contains text.toList)
  let word := String.ofList (digits.map Char.toLower)
  if word == "inf" || word == "infinity" then some (clamp (withSign negative (capacity 64)))
  else if word == "nan" then some 0
  else (DecimalNumeral.read? digits).map fun numeral =>
    clamp (withSign negative (numeral.whole?.getD (capacity 64)))

/-- The value of digits with an optional sign, if it is a signed value. -/
def signedDigits? (base : Nat) (text : List Char) : Option Int64 := do
  let (negative, digits) := splitSign text
  let value := withSign negative (← numeral? base digits)
  if least ≤ value ∧ value ≤ greatest then some (Int64.ofInt value) else none

/-- The code of a character. -/
def charCode (c : Char) : Int64 := Int64.ofNat c.toNat

/-- The value of an escape, given what stands behind the backslash. -/
def escape? : List Char → Option Int64
  | [] => none
  | 'n' :: _ => some 10
  | 't' :: _ => some 9
  | 'r' :: _ => some 13
  | 'v' :: _ => some 11
  | 'b' :: _ => some 8
  | 'f' :: _ => some 12
  | 'a' :: _ => some 7
  | 'x' :: rest => signedDigits? 16 rest
  | c :: rest =>
    if '0' ≤ c && c ≤ '7' then signedDigits? 8 (c :: rest) else some (charCode c)

/-- What stands between the first quote of a literal and its last byte.  The last byte
is taken for the closing quote whatever it is, but has to be a character. -/
def quotedBody? (text : List Char) : Option (List Char) :=
  match text.dropWhile (· ≠ '\'') with
  | [] => none
  | _ :: behind =>
    match behind.getLast? with
    | some last => if last.utf8Size = 1 then some behind.dropLast else none
    | none => none

/-- The value of a character literal, that of its first character. -/
def character? (text : String) : Option Int64 := do
  match ← quotedBody? text.toList with
  | [] => none
  | '\\' :: rest => escape? rest
  | c :: _ => some (charCode c)

end Constant
end CppNames
