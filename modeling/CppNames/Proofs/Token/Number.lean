import CppNames.Token.Piece
import Mathlib.Data.List.TakeWhile

namespace CppNames
namespace Token

/-!
# Numbers that stand apart

A token is read by looking at the characters behind it, so what is read may change where a
token is written behind other text.  A blank behind a token never changes it.  For numbers
this goes from part to part: on the characters that it took, followed by a blank or by nothing,
each part takes the same characters again.  The part that reads digits, a point and an exponent
is shown to stay within what the whole number takes.
-/

/-- The text behind a token: nothing, or a blank in front of more. -/
def Apart (behind : List Char) : Prop := behind = [] ∨ ∃ more, behind = ' ' :: more

variable {behind : List Char}

/-! ## Runs -/

theorem runLength_le (test : Char → Bool) (text : List Char) : runLength test text ≤ text.length :=
  (List.takeWhile_prefix test).length_le

theorem runLength_apart {test : Char → Bool} (blank : test ' ' = false) (apart : Apart behind) :
    runLength test behind = 0 := by
  rcases apart with rfl | ⟨more, rfl⟩
  · rfl
  · simp [runLength, blank]

theorem runLength_take {test : Char → Bool} (blank : test ' ' = false) (apart : Apart behind)
    {text : List Char} {count : Nat} (inside : runLength test text ≤ count) :
    runLength test (text.take count ++ behind) = runLength test text := by
  induction text generalizing count with
  | nil =>
    rw [List.take_nil, List.nil_append]
    exact runLength_apart blank apart
  | cons c rest ih =>
    cases passes : test c with
    | true =>
      have length : runLength test (c :: rest) = runLength test rest + 1 := by
        simp [runLength, passes]
      cases count with
      | zero => omega
      | succ count =>
        rw [length] at inside ⊢
        have behindFirst := ih (Nat.le_of_succ_le_succ inside)
        rw [List.take_succ_cons, List.cons_append]
        simpa [runLength, passes] using behindFirst
    | false =>
      have none : runLength test (c :: rest) = 0 := by simp [runLength, passes]
      rw [none]
      cases count with
      | zero => exact runLength_apart blank apart
      | succ count => simp [runLength, passes]

/-- What is left behind some of the characters taken. -/
theorem drop_take_append {text : List Char} {front count : Nat} (inside : front ≤ count)
    (whole : count ≤ text.length) :
    (text.take count ++ behind).drop front = (text.drop front).take (count - front) ++ behind := by
  rw [List.drop_append_of_le_length (by rw [List.length_take]; omega), List.drop_take]

/-! ## Numbers -/

theorem fractionExtent_le (text : List Char) : fractionExtent text ≤ text.length := by
  unfold fractionExtent
  split
  · next rest =>
    have inside := runLength_le Char.isDigit rest
    rw [List.length_cons]
    omega
  · exact Nat.zero_le _

theorem fractionExtent_take (apart : Apart behind) {text : List Char} {count : Nat}
    (inside : fractionExtent text ≤ count) :
    fractionExtent (text.take count ++ behind) = fractionExtent text := by
  have none : fractionExtent behind = 0 := by
    rcases apart with rfl | ⟨more, rfl⟩
    · rfl
    · rfl
  cases text with
  | nil => rw [List.take_nil, List.nil_append, none]; rfl
  | cons c rest =>
    by_cases point : c = '.'
    · subst point
      change 1 + runLength Char.isDigit rest ≤ count at inside
      cases count with
      | zero => omega
      | succ count =>
        change 1 + runLength Char.isDigit (rest.take count ++ behind) =
          1 + runLength Char.isDigit rest
        rw [runLength_take (by decide) apart (by omega)]
    · have zero : ∀ more, fractionExtent (c :: more) = 0 := by
        intro more
        unfold fractionExtent
        split
        · next same => exact absurd (List.cons.inj same).1 point
        · rfl
      rw [zero]
      cases count with
      | zero => exact none
      | succ count => exact zero _

/-- The length of the sign at the front of an exponent. -/
def signLength : List Char → Nat
  | s :: _ => if s == '+' || s == '-' then 1 else 0
  | [] => 0

/-- The digits of an exponent behind its sign. -/
def signedDigits (text : List Char) : Nat := runLength Char.isDigit (text.drop (signLength text))

theorem exponentExtent_cons (e : Char) (rest : List Char) :
    exponentExtent (e :: rest) =
      if e == 'e' || e == 'E' then
        if signedDigits rest = 0 then 0 else 1 + signLength rest + signedDigits rest
      else 0 := by
  cases rest <;> rfl

theorem signedDigits_take (apart : Apart behind) {text : List Char} {count : Nat}
    (inside : signedDigits text = 0 ∨ signLength text + signedDigits text ≤ count) :
    signedDigits (text.take count ++ behind) = signedDigits text ∧
      (signedDigits text ≠ 0 → signLength (text.take count ++ behind) = signLength text) := by
  have none : signedDigits behind = 0 := by
    rcases apart with rfl | ⟨more, rfl⟩
    · rfl
    · rfl
  cases text with
  | nil =>
    rw [List.take_nil, List.nil_append]
    exact ⟨none, fun more => absurd rfl more⟩
  | cons s rest =>
    cases count with
    | zero =>
      have zero : signedDigits (s :: rest) = 0 := by omega
      rw [List.take_zero, List.nil_append, zero]
      exact ⟨none, fun more => absurd rfl more⟩
    | succ count =>
      refine ⟨?_, fun _ => rfl⟩
      rw [List.take_succ_cons, List.cons_append]
      unfold signedDigits at inside ⊢
      by_cases sign : (s == '+' || s == '-') = true
      · have one : ∀ more, signLength (s :: more) = 1 := fun more => if_pos sign
        rw [one] at inside ⊢
        rw [one]
        change runLength Char.isDigit (rest.take count ++ behind) = runLength Char.isDigit rest
        change runLength Char.isDigit rest = 0 ∨ 1 + runLength Char.isDigit rest ≤ count + 1
          at inside
        exact runLength_take (by decide) apart (by omega)
      · have zero : ∀ more, signLength (s :: more) = 0 := fun more => if_neg sign
        rw [zero] at inside ⊢
        rw [zero, List.drop_zero, List.drop_zero]
        rw [List.drop_zero] at inside
        rw [← List.cons_append, ← List.take_succ_cons]
        exact runLength_take (by decide) apart (by omega)

theorem exponentExtent_le (text : List Char) : exponentExtent text ≤ text.length := by
  cases text with
  | nil => exact Nat.le_refl _
  | cons e rest =>
    have inside : signedDigits rest ≤ (rest.drop (signLength rest)).length := runLength_le _ _
    rw [List.length_drop] at inside
    rw [exponentExtent_cons, List.length_cons]
    split
    · split
      · exact Nat.zero_le _
      · omega
    · exact Nat.zero_le _

theorem exponentExtent_take (apart : Apart behind) {text : List Char} {count : Nat}
    (inside : exponentExtent text ≤ count) :
    exponentExtent (text.take count ++ behind) = exponentExtent text := by
  have none : exponentExtent behind = 0 := by
    rcases apart with rfl | ⟨more, rfl⟩
    · rfl
    · rfl
  cases text with
  | nil => rw [List.take_nil, List.nil_append, none]; rfl
  | cons e rest =>
    cases count with
    | zero =>
      rw [List.take_zero, List.nil_append, none]
      omega
    | succ count =>
      rw [List.take_succ_cons, List.cons_append, exponentExtent_cons, exponentExtent_cons]
      rw [exponentExtent_cons] at inside
      split
      · next letter =>
        rw [if_pos letter] at inside
        by_cases digits : signedDigits rest = 0
        · rw [(signedDigits_take apart (.inl digits)).1, if_pos digits, if_pos digits]
        · rw [if_neg digits] at inside
          have fits : signLength rest + signedDigits rest ≤ count := by omega
          have same := signedDigits_take apart (.inr fits)
          rw [same.1, same.2 digits]
      · rfl

/-- A number without a prefix for base sixteen. -/
theorem digitsExtent_eq {text : List Char}
    (plain : ∀ rest, text ≠ '0' :: 'x' :: rest ∧ text ≠ '0' :: 'X' :: rest) :
    digitsExtent text =
      let whole := runLength Char.isDigit text
      let fraction := fractionExtent (text.drop whole)
      let exponent := exponentExtent (text.drop (whole + fraction))
      (fraction != 0 || exponent != 0, whole + fraction + exponent) := by
  unfold digitsExtent
  split
  · next rest => exact absurd rfl (plain rest).1
  · next rest => exact absurd rfl (plain rest).2
  · rfl

theorem digitsExtent_le (text : List Char) : (digitsExtent text).2 ≤ text.length := by
  unfold digitsExtent
  split
  · next rest =>
    have inside := runLength_le isHexDigit rest
    simp only [List.length_cons]
    omega
  · next rest =>
    have inside := runLength_le isHexDigit rest
    simp only [List.length_cons]
    omega
  · have whole := runLength_le Char.isDigit text
    have fraction := fractionExtent_le (text.drop (runLength Char.isDigit text))
    have exponent := exponentExtent_le (text.drop (runLength Char.isDigit text +
      fractionExtent (text.drop (runLength Char.isDigit text))))
    rw [List.length_drop] at fraction exponent
    dsimp only
    omega

/-- A visible character at the front of what was taken was at the front of the text. -/
theorem front_of_take (apart : Apart behind) {text rest : List Char} {first : Char} {count : Nat}
    (visible : first ≠ ' ') (same : text.take count ++ behind = first :: rest) :
    ∃ remaining fewer, text = first :: remaining ∧ count = fewer + 1 ∧
      rest = remaining.take fewer ++ behind := by
  have hidden : ∀ rest, behind ≠ first :: rest := by
    intro rest same
    rcases apart with rfl | ⟨more, rfl⟩
    · cases same
    · exact visible (List.cons.inj same).1.symm
  cases text with
  | nil =>
    rw [List.take_nil, List.nil_append] at same
    exact absurd same (hidden rest)
  | cons c remaining =>
    cases count with
    | zero => exact absurd same (hidden rest)
    | succ fewer =>
      rw [List.take_succ_cons, List.cons_append] at same
      rcases List.cons.inj same with ⟨rfl, rfl⟩
      exact ⟨remaining, fewer, rfl, rfl, rfl⟩

theorem hexExtent_take (apart : Apart behind) {rest : List Char} {count : Nat}
    (inside : 2 + runLength isHexDigit rest ≤ count) (zero x : Char) :
    ∃ more, (zero :: x :: rest).take count ++ behind = zero :: x :: more ∧
      runLength isHexDigit more = runLength isHexDigit rest := by
  rcases Nat.exists_eq_add_of_le (Nat.le_trans (Nat.le_add_right 2 _) inside) with ⟨fewer, rfl⟩
  refine ⟨rest.take fewer ++ behind, ?_, runLength_take (by decide) apart (by omega)⟩
  rw [Nat.add_comm]
  rfl

theorem digitsExtent_take (apart : Apart behind) {text : List Char} {count : Nat}
    (inside : (digitsExtent text).2 ≤ count) (whole : count ≤ text.length) :
    digitsExtent (text.take count ++ behind) = digitsExtent text := by
  by_cases plain : ∀ rest, text ≠ '0' :: 'x' :: rest ∧ text ≠ '0' :: 'X' :: rest
  · have plainTaken : ∀ rest, text.take count ++ behind ≠ '0' :: 'x' :: rest ∧
        text.take count ++ behind ≠ '0' :: 'X' :: rest := by
      intro rest
      constructor
      · intro same
        rcases front_of_take apart (by decide) same with ⟨remaining, fewer, rfl, _, behindZero⟩
        rcases front_of_take apart (by decide) behindZero.symm with ⟨last, _, rfl, _, _⟩
        exact (plain last).1 rfl
      · intro same
        rcases front_of_take apart (by decide) same with ⟨remaining, fewer, rfl, _, behindZero⟩
        rcases front_of_take apart (by decide) behindZero.symm with ⟨last, _, rfl, _, _⟩
        exact (plain last).2 rfl
    rw [digitsExtent_eq plain] at inside ⊢
    rw [digitsExtent_eq plainTaken]
    dsimp only at inside ⊢
    have digits : runLength Char.isDigit (text.take count ++ behind) =
        runLength Char.isDigit text := runLength_take (by decide) apart (by omega)
    rw [digits, drop_take_append (by omega) whole]
    have fraction : fractionExtent ((text.drop (runLength Char.isDigit text)).take
        (count - runLength Char.isDigit text) ++ behind) =
          fractionExtent (text.drop (runLength Char.isDigit text)) :=
      fractionExtent_take apart (by omega)
    rw [fraction, drop_take_append (by omega) whole, exponentExtent_take apart (by omega)]
  · simp only [not_forall, not_and_or, not_not] at plain
    rcases plain with ⟨rest, rfl | rfl⟩
    · rcases hexExtent_take apart inside '0' 'x' with ⟨more, same, run⟩
      rw [same]
      change (false, 2 + runLength isHexDigit more) = (false, 2 + runLength isHexDigit rest)
      rw [run]
    · rcases hexExtent_take apart inside '0' 'X' with ⟨more, same, run⟩
      rw [same]
      change (false, 2 + runLength isHexDigit more) = (false, 2 + runLength isHexDigit rest)
      rw [run]

/-- The number of characters of the number at the front of a text. -/
def numberLength (text : List Char) : Nat :=
  (digitsExtent text).2 + runLength isNumberSuffix (text.drop (digitsExtent text).2)

theorem numberLength_le (text : List Char) : numberLength text ≤ text.length := by
  have digits := digitsExtent_le text
  have suffix := runLength_le isNumberSuffix (text.drop (digitsExtent text).2)
  rw [List.length_drop] at suffix
  unfold numberLength
  omega

/-- A number is read again from its characters, standing apart. -/
theorem number_take (apart : Apart behind) (text : List Char) :
    number (text.take (numberLength text) ++ behind) = number text := by
  have whole := numberLength_le text
  have inside : (digitsExtent text).2 ≤ numberLength text := Nat.le_add_right _ _
  unfold number
  rw [digitsExtent_take apart inside whole]
  dsimp only
  rw [drop_take_append inside whole]
  have suffix : runLength isNumberSuffix (text.drop (digitsExtent text).2) ≤
      numberLength text - (digitsExtent text).2 := by
    unfold numberLength
    omega
  rw [runLength_take (by decide) apart suffix]

theorem numberLength_digit {c : Char} (digit : c.isDigit = true) (rest : List Char) :
    0 < numberLength (c :: rest) := by
  have positive : 0 < (digitsExtent (c :: rest)).2 := by
    by_cases plain : ∀ more, c :: rest ≠ '0' :: 'x' :: more ∧ c :: rest ≠ '0' :: 'X' :: more
    · have whole : runLength Char.isDigit (c :: rest) = runLength Char.isDigit rest + 1 := by
        simp [runLength, digit]
      rw [digitsExtent_eq plain]
      dsimp only
      omega
    · simp only [not_forall, not_and_or, not_not] at plain
      rcases plain with ⟨more, same | same⟩
      · rw [same]
        change 0 < 2 + runLength isHexDigit more
        omega
      · rw [same]
        change 0 < 2 + runLength isHexDigit more
        omega
  exact Nat.lt_of_lt_of_le positive (Nat.le_add_right _ _)

theorem numberLength_point {digit : Char} (isDigit : digit.isDigit = true) (rest : List Char) :
    1 < numberLength ('.' :: digit :: rest) := by
  have fraction : runLength Char.isDigit (digit :: rest) = runLength Char.isDigit rest + 1 := by
    simp [runLength, isDigit]
  have extent : (digitsExtent ('.' :: digit :: rest)).2 =
      0 + (1 + runLength Char.isDigit (digit :: rest)) +
        exponentExtent (('.' :: digit :: rest).drop
          (0 + (1 + runLength Char.isDigit (digit :: rest)))) := rfl
  unfold numberLength
  omega

end Token
end CppNames
