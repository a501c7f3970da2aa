import CppNames.Constant.Literal
import Mathlib.Data.List.Basic
import Mathlib.Tactic.Tauto

namespace CppNames

/-!
# Lengths and values of literals

The length of an array is read from the digits of its literal in base ten, whatever they are.
The value of a literal is read in the base that its first characters tell and without the suffix
at its end, and wraps where it exceeds the signed values.  Among the literals that begin with a
digit, the two agree just on those of decimal digits alone that do not begin with a zero, or
stay below eight, and whose value is a signed value.  Everywhere else one of the two reads a
number that the other does not, or neither reads one.
-/

variable {base start value other : Nat} {text : List Char} {c : Char}

/-! ## Digits -/

theorem isDigit_of_digitValue? (small : base ≤ 10) (reads : digitValue? base c = some value) :
    c.isDigit = true := by
  cases digit : c.isDigit with
  | true => rfl
  | false =>
    unfold digitValue? at reads
    rw [digit] at reads
    grind

/-- A digit of base eight is one of base ten that is below eight. -/
theorem digitValue?_eight_iff :
    digitValue? 8 c = some value ↔ digitValue? 10 c = some value ∧ value < 8 := by
  cases digit : c.isDigit with
  | true =>
    unfold digitValue?
    rw [digit]
    grind
  | false =>
    constructor
    · intro reads
      rw [isDigit_of_digitValue? (by decide) reads] at digit
      cases digit
    · intro reads
      rw [isDigit_of_digitValue? (by decide) reads.1] at digit
      cases digit

theorem digitsValue?_cons_eq_some_iff :
    digitsValue? base start (c :: text) = some value ↔
      ∃ digit, digitValue? base c = some digit ∧
        digitsValue? base (start * base + digit) text = some value := by
  rw [digitsValue?]
  exact Option.bind_eq_some_iff

theorem all_isDigit_of_digitsValue? (small : base ≤ 10)
    (reads : digitsValue? base start text = some value) : ∀ c ∈ text, c.isDigit = true := by
  induction text generalizing start with
  | nil => exact fun c member => absurd member List.not_mem_nil
  | cons first rest ih =>
    rcases digitsValue?_cons_eq_some_iff.mp reads with ⟨digit, own, others⟩
    exact List.forall_mem_cons.mpr ⟨isDigit_of_digitValue? small own, ih others⟩

theorem le_of_digitsValue? (positive : 0 < base)
    (reads : digitsValue? base start text = some value) : start ≤ value := by
  induction text generalizing start with
  | nil => exact Nat.le_of_eq (Option.some.inj reads)
  | cons first rest ih =>
    rcases digitsValue?_cons_eq_some_iff.mp reads with ⟨digit, own, others⟩
    have scaled : start ≤ start * base := Nat.le_mul_of_pos_right start positive
    have behind := ih others
    omega

/-! ## The same digits in two bases -/

/-- A number that is behind in base eight stays behind. -/
theorem lt_of_digitsValue? {octal decimal : Nat} (behind : octal < decimal)
    (inOctal : digitsValue? 8 octal text = some value)
    (inDecimal : digitsValue? 10 decimal text = some other) : value < other := by
  induction text generalizing octal decimal with
  | nil =>
    rw [← Option.some.inj inOctal, ← Option.some.inj inDecimal]
    exact behind
  | cons first rest ih =>
    rcases digitsValue?_cons_eq_some_iff.mp inOctal with ⟨digit, own, others⟩
    rcases digitsValue?_cons_eq_some_iff.mp inDecimal with ⟨same, ownDecimal, othersDecimal⟩
    have equal : digit = same :=
      Option.some.inj ((digitValue?_eight_iff.mp own).1.symm.trans ownDecimal)
    exact ih (by omega) others othersDecimal

/-- Only numbers of one digit are alike in both bases. -/
theorem lt_eight_of_digitsValue? (inOctal : digitsValue? 8 0 text = some value)
    (inDecimal : digitsValue? 10 0 text = some value) : value < 8 := by
  induction text with
  | nil =>
    rw [← Option.some.inj inOctal]
    decide
  | cons first rest ih =>
    rcases digitsValue?_cons_eq_some_iff.mp inOctal with ⟨digit, own, others⟩
    rcases digitsValue?_cons_eq_some_iff.mp inDecimal with ⟨same, ownDecimal, othersDecimal⟩
    rcases digitValue?_eight_iff.mp own with ⟨decimal, small⟩
    obtain rfl : digit = same := Option.some.inj (decimal.symm.trans ownDecimal)
    rw [Nat.zero_mul, Nat.zero_add] at others othersDecimal
    rcases Nat.eq_zero_or_pos digit with rfl | positive
    · exact ih others othersDecimal
    · cases rest with
      | nil => rwa [← Option.some.inj others]
      | cons next more =>
        -- the digit in front already counts for more in base ten
        rcases digitsValue?_cons_eq_some_iff.mp others with ⟨second, ownNext, inOctal⟩
        rcases digitsValue?_cons_eq_some_iff.mp othersDecimal with ⟨again, ownAgain, inDecimal⟩
        have equal : second = again :=
          Option.some.inj ((digitValue?_eight_iff.mp ownNext).1.symm.trans ownAgain)
        have less : value < value :=
          lt_of_digitsValue? (by omega) inOctal inDecimal
        exact absurd less (Nat.lt_irrefl value)

/-- A decimal number below eight is the same number in base eight. -/
theorem digitsValue?_eight_of_lt (small : value < 8)
    (inDecimal : digitsValue? 10 start text = some value) :
    digitsValue? 8 start text = some value := by
  induction text generalizing start with
  | nil => exact inDecimal
  | cons first rest ih =>
    rcases digitsValue?_cons_eq_some_iff.mp inDecimal with ⟨digit, own, others⟩
    have bounded : start * 10 + digit ≤ value := le_of_digitsValue? (by decide) others
    have nothing : start = 0 := by omega
    subst nothing
    exact digitsValue?_cons_eq_some_iff.mpr
      ⟨digit, digitValue?_eight_iff.mpr ⟨own, by omega⟩, ih others⟩

/-! ## Literals -/

theorem numeral?_eq_some_iff :
    numeral? base text = some value ↔ text ≠ [] ∧ digitsValue? base 0 text = some value := by
  unfold numeral?
  cases text with
  | nil => simp
  | cons first rest => simp

theorem boundedNumeral?_eq_some_iff {bound : Nat} (noSign : text.head? ≠ some '+') :
    boundedNumeral? base bound text = some value ↔
      numeral? base text = some value ∧ value < bound := by
  have digits : boundedNumeral? base bound text =
      (numeral? base text).bind fun value => if value < bound then some value else none := by
    unfold boundedNumeral?
    split
    · exact absurd rfl noSign
    · rfl
  rw [digits, Option.bind_eq_some_iff]
  simp

namespace Constant

/-- A literal of digits has no suffix that could be cut off. -/
theorem trimEnd_of_digits (digits : ∀ c ∈ text, c.isDigit = true) :
    trimEnd "uUlL".toList.contains text = text := by
  have none : text.reverse.dropWhile "uUlL".toList.contains = text.reverse := by
    cases reversed : text.reverse with
    | nil => rfl
    | cons last front =>
      have digit : last.isDigit = true :=
        digits last (List.mem_reverse.mp (reversed ▸ List.mem_cons_self))
      have noSuffix : "uUlL".toList.contains last = false := by
        cases suffix : "uUlL".toList.contains last with
        | false => rfl
        | true =>
          have letters : "uUlL".toList.all (!·.isDigit) = true := by decide
          have letter := List.all_eq_true.mp letters last (List.contains_iff_mem.mp suffix)
          rw [digit] at letter
          cases letter
      rw [List.dropWhile_cons_of_neg (by rw [noSuffix]; decide)]
  unfold trimEnd
  rw [none, List.reverse_reverse]

/-- A number that 64 bits can hold is its own signed value below half of their capacity. -/
theorem toInt_ofNat_eq_iff {length : Nat} (fits : value < capacity 64) :
    (Int64.ofNat value).toInt = length ↔ value = length ∧ length < capacity 63 := by
  have whole : capacity 64 = 18446744073709551616 := rfl
  have half : capacity 63 = 9223372036854775808 := rfl
  have size : (Int64.size : Int) = 18446744073709551616 := rfl
  rw [Int64.toInt_ofNat', half, Int.bmod_def, size]
  rw [whole] at fits
  omega

/-- The signed value of a numeral that 64 bits can hold. -/
theorem exists_toInt_iff {length : Nat} :
    (∃ value, (boundedNumeral? base (capacity 64) text).map Int64.ofNat = some value ∧
        value.toInt = length) ↔
      boundedNumeral? base (capacity 64) text = some length ∧ length < capacity 63 := by
  cases reads : boundedNumeral? base (capacity 64) text with
  | none => simp
  | some number =>
    have fits : number < capacity 64 := by
      unfold boundedNumeral? at reads
      rcases Option.bind_eq_some_iff.mp reads with ⟨found, _, within⟩
      split at within
      · next below => rwa [← Option.some.inj within]
      · cases within
    constructor
    · rintro ⟨value, same, signed⟩
      rw [← Option.some.inj same] at signed
      rcases (toInt_ofNat_eq_iff fits).mp signed with ⟨rfl, below⟩
      exact ⟨rfl, below⟩
    · rintro ⟨same, below⟩
      rcases Option.some.inj same
      exact ⟨_, rfl, (toInt_ofNat_eq_iff fits).mpr ⟨rfl, below⟩⟩

/-- The value of a literal of digits, in base eight behind a zero. -/
theorem integer?_of_digits {text : String} (digits : ∀ c ∈ text.toList, c.isDigit = true) :
    integer? text =
      (if text.toList.head? = some '0' ∧ text.toList.tail ≠ [] then
        boundedNumeral? 8 (capacity 64) text.toList.tail
      else boundedNumeral? 10 (capacity 64) text.toList).map Int64.ofNat := by
  unfold integer?
  rw [trimEnd_of_digits digits]
  generalize text.toList = characters at digits
  dsimp only
  split
  · exact absurd (digits 'x' (by simp)) (by decide)
  · exact absurd (digits 'X' (by simp)) (by decide)
  · next next rest _ _ => rw [if_pos ⟨rfl, List.cons_ne_nil _ _⟩, List.tail_cons]
  · next noHex noHex' noOctal =>
    rw [if_neg ?_]
    rintro ⟨zero, more⟩
    cases characters with
    | nil => cases zero
    | cons first rest =>
      cases rest with
      | nil => exact more rfl
      | cons next behind => exact noOctal next behind (by rw [Option.some.inj zero])

/-- A literal of decimal digits that also count in the base which its first digit tells. -/
def IsDecimal (text : String) (value : Nat) : Prop :=
  numeral? 10 text.toList = some value ∧ (text.toList.head? ≠ some '0' ∨ value < 8)

/-- Behind a zero in front, decimal digits are read in base eight. -/
theorem isDecimal_of_zero {text : String} {rest : List Char} (zero : text.toList = '0' :: rest) :
    IsDecimal text value ↔ digitsValue? 10 0 rest = some value ∧ digitsValue? 8 0 rest = some value := by
  have behind : digitsValue? 10 0 ('0' :: rest) = digitsValue? 10 0 rest := rfl
  unfold IsDecimal
  rw [numeral?_eq_some_iff, zero, behind]
  constructor
  · rintro ⟨⟨_, decimal⟩, noZero | small⟩
    · exact absurd rfl noZero
    · exact ⟨decimal, digitsValue?_eight_of_lt small decimal⟩
  · rintro ⟨decimal, octal⟩
    exact ⟨⟨List.cons_ne_nil _ _, decimal⟩, .inr (lt_eight_of_digitsValue? octal decimal)⟩

/-- A literal has the same number as a length and as a value just if it is decimal and the number
is a signed value. -/
theorem alike_iff_isDecimal {text : String} (noSign : text.toList.head? ≠ some '+') {length : Nat} :
    (boundedNumeral? 10 (capacity 64) text.toList = some length ∧
      ∃ value, integer? text = some value ∧ value.toInt = length) ↔
        IsDecimal text length ∧ length < capacity 63 := by
  have fits : length < capacity 63 → length < capacity 64 :=
    fun below => Nat.lt_trans below (by decide)
  by_cases all : ∃ number, numeral? 10 text.toList = some number
  · rcases all with ⟨number, decimal⟩
    have digits := all_isDigit_of_digitsValue? (by decide) (numeral?_eq_some_iff.mp decimal).2
    rw [integer?_of_digits digits]
    split
    · next octal =>
      rcases octal with ⟨zero, more⟩
      have split : text.toList = '0' :: text.toList.tail :=
        (List.cons_head?_tail (Option.mem_def.mpr zero)).symm
      have noSignBehind : text.toList.tail.head? ≠ some '+' := fun sign =>
        absurd (digits '+' (List.mem_of_mem_tail (List.mem_of_mem_head? sign))) (by decide)
      have behind : digitsValue? 10 0 text.toList = digitsValue? 10 0 text.toList.tail := by
        rw [split]
        rfl
      rw [exists_toInt_iff, boundedNumeral?_eq_some_iff noSign,
        boundedNumeral?_eq_some_iff noSignBehind, isDecimal_of_zero split, numeral?_eq_some_iff,
        numeral?_eq_some_iff, behind]
      have there : text.toList ≠ [] := by rw [split]; exact List.cons_ne_nil _ _
      tauto
    · next noOctal =>
      have counts : IsDecimal text length ↔ numeral? 10 text.toList = some length := by
        refine and_iff_left_of_imp fun reads => ?_
        by_cases zero : text.toList.head? = some '0'
        · have nothing : text.toList.tail = [] := not_not.mp fun more => noOctal ⟨zero, more⟩
          have split : text.toList = '0' :: text.toList.tail :=
            (List.cons_head?_tail (Option.mem_def.mpr zero)).symm
          rw [split, nothing] at reads
          rw [← Option.some.inj reads]
          exact .inr (by decide)
        · exact .inl zero
      rw [exists_toInt_iff, boundedNumeral?_eq_some_iff noSign, counts]
      tauto
  · constructor
    · rintro ⟨decimal, _⟩
      exact absurd ⟨length, ((boundedNumeral?_eq_some_iff noSign).mp decimal).1⟩ all
    · rintro ⟨⟨decimal, _⟩, _⟩
      exact absurd ⟨length, decimal⟩ all

end Constant
end CppNames
