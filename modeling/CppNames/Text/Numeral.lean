namespace CppNames

/-!
# Reading numerals

A numeral is a nonempty run of digits of some base.  A sign in front of it is read
only where the caller asks for it.
-/

/-- The number of values that some bits can hold. -/
def capacity (bits : Nat) : Nat := Nat.pow 2 bits

/-- The value of a digit of some base up to thirty-six, in either case. -/
def digitValue? (base : Nat) (c : Char) : Option Nat :=
  let value :=
    if c.isDigit then c.toNat - '0'.toNat
    else if c.isLower then c.toNat - 'a'.toNat + 10
    else if c.isUpper then c.toNat - 'A'.toNat + 10
    else base
  if value < base then some value else none

/-- The value of digits behind digits of a given value. -/
def digitsValue? (base : Nat) (value : Nat) : List Char → Option Nat
  | [] => some value
  | c :: rest => do
    let digit ← digitValue? base c
    digitsValue? base (value * base + digit) rest

/-- The value of a nonempty run of digits. -/
def numeral? (base : Nat) (text : List Char) : Option Nat :=
  if text.isEmpty then none else digitsValue? base 0 text

/-- The value of a numeral that may have a plus sign, if it is below a bound. -/
def boundedNumeral? (base bound : Nat) (text : List Char) : Option Nat := do
  let digits := match text with
    | '+' :: rest => rest
    | _ => text
  let value ← numeral? base digits
  if value < bound then some value else none

end CppNames
