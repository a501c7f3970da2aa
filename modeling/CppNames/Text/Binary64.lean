import CppNames.Text.Numeral

namespace CppNames

/-!
# Decimal numerals as binary64 numbers

A decimal numeral stands for the nearest number with 53 significant bits, the one whose
last bit is zero if two are equally near.  What is needed of that number is its whole
part, so numbers below one half are all zero and numbers beyond 64 bits are all alike.
-/

/-- The quotient of two numbers rounded to the nearest whole number, a tie to the even
one. -/
def roundedQuotient (dividend divisor : Nat) : Nat :=
  let quotient := dividend / divisor
  let rest := 2 * (dividend % divisor)
  if rest < divisor then quotient
  else if divisor < rest then quotient + 1
  else if quotient % 2 = 0 then quotient
  else quotient + 1

/-- The whole part of the binary64 number nearest to a fraction, if the fraction is less
than the capacity of 64 bits. -/
def wholeBinary64? (dividend divisor : Nat) : Option Nat :=
  let whole := dividend / divisor
  if 2 * dividend < divisor then some 0
  else if capacity 64 ≤ whole then none
  else if whole < capacity 53 then
    let places := if whole = 0 then 53 else 52 - whole.log2
    some (roundedQuotient (dividend * capacity places) divisor / capacity places)
  else
    let places := whole.log2 - 52
    some (roundedQuotient dividend (divisor * capacity places) * capacity places)

/-- A decimal numeral with its point and its exponent: some digits times a power of
ten. -/
structure DecimalNumeral where
  digits : Nat
  exponent : Int
  deriving DecidableEq, Repr

/-- The parts of a run of characters in front of and behind the first one that satisfies
a test; that one belongs to neither. -/
def cutAt (test : Char → Bool) (text : List Char) : List Char × Option (List Char) :=
  match text.dropWhile (!test ·) with
  | [] => (text, none)
  | _ :: behind => (text.takeWhile (!test ·), some behind)

/-- The value of digits with an optional sign. -/
def signedNumeral? (text : List Char) : Option Int :=
  match text with
  | '+' :: digits => (numeral? 10 digits).map Int.ofNat
  | '-' :: digits => (numeral? 10 digits).map fun value => - Int.ofNat value
  | digits => (numeral? 10 digits).map Int.ofNat

/-- Reads a decimal numeral without a sign: digits with an optional point and an optional
exponent.  There is at least one digit in front of or behind the point. -/
def DecimalNumeral.read? (text : List Char) : Option DecimalNumeral := do
  let (mantissa, exponentText) := cutAt (fun c => c == 'e' || c == 'E') text
  let exponent ← exponentText.elim (some 0) signedNumeral?
  let (whole, fraction) := cutAt (· == '.') mantissa
  let digits ← numeral? 10 (whole ++ fraction.getD [])
  return ⟨digits, exponent - (fraction.getD []).length⟩

/-- The whole part of the binary64 number nearest to a numeral, if the numeral is less
than the capacity of 64 bits. -/
def DecimalNumeral.whole? (numeral : DecimalNumeral) : Option Nat :=
  let size : Int := (toString numeral.digits).length
  if numeral.digits = 0 || size + numeral.exponent < 0 then some 0
  else if 20 < size + numeral.exponent then none
  else if 0 ≤ numeral.exponent then
    wholeBinary64? (numeral.digits * Nat.pow 10 numeral.exponent.toNat) 1
  else wholeBinary64? numeral.digits (Nat.pow 10 (-numeral.exponent).toNat)

end CppNames
