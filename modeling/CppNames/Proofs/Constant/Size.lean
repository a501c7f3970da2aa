import CppNames.Constant.Size
import CppNames.Proofs.Constant.Literal
import CppNames.Proofs.Encoding.Complete
import Mathlib.Algebra.BigOperators.Group.List.Basic

namespace CppNames

/-!
# Sizes of nested arrays

The length of an array stands in its encoding as a decimal numeral and is read back when the size
is asked for.  The size of arrays of arrays is the product of all lengths and of the size of what
lies at the bottom.  It is computed from the inside to the outside, so there is a size only where
each product on the way is one, and a length of zero does not mend a product further inside that
is none.
-/

/-! ## Numerals -/

theorem digitValue?_ten {c : Char} (digit : c.isDigit = true) :
    digitValue? 10 c = some (c.toNat - '0'.toNat) := by
  have bounds : 48 ≤ c.toNat ∧ c.toNat ≤ 57 := Char.isDigit_iff_toNat.mp digit
  have small : c.toNat - 48 < 10 := by omega
  unfold digitValue?
  rw [if_pos digit]
  exact if_pos small

theorem digitsValue?_ten {text : List Char} (digits : ∀ c ∈ text, c.isDigit = true) (start : Nat) :
    digitsValue? 10 start text = some (Nat.ofDigitChars 10 text start) := by
  induction text generalizing start with
  | nil => rfl
  | cons first rest ih =>
    rcases List.forall_mem_cons.mp digits with ⟨digit, others⟩
    rw [digitsValue?, digitValue?_ten digit, Nat.ofDigitChars_cons, Nat.mul_comm 10]
    exact ih others _

/-- A number that is written out and read again is the same number, if it is below the bound. -/
theorem boundedNumeral?_toString {number bound : Nat} (below : number < bound) :
    boundedNumeral? 10 bound (toString number).toList = some number := by
  change boundedNumeral? 10 bound number.repr.toList = some number
  rw [Nat.toList_repr]
  have digits : ∀ c ∈ Nat.toDigits 10 number, c.isDigit = true := fun c =>
    Nat.isDigit_of_mem_toDigits (by decide) (Nat.le_refl 10)
  have noSign : (Nat.toDigits 10 number).head? ≠ some '+' := fun sign =>
    Bool.noConfusion (digits '+' (List.mem_of_head? sign))
  refine (boundedNumeral?_eq_some_iff noSign).mpr ⟨numeral?_eq_some_iff.mpr ⟨?_, ?_⟩, below⟩
  · exact Nat.toDigits_ne_nil
  · rw [digitsValue?_ten digits, Nat.ofDigitChars_ten_toDigits]

namespace Constant

open Encoding (code)

variable {element : Encoding} {behind : List UInt8}

/-! ## One array -/

/-- What stands in front of the underscore is read as it was written. -/
theorem cutAtUnderscore_digits {digits : List Char} (plain : ∀ c ∈ digits, c.isDigit = true) :
    cutAtUnderscore (digits.map code ++ code '_' :: behind) = some (digits, behind) := by
  induction digits with
  | nil => rfl
  | cons first rest ih =>
    rcases List.forall_mem_cons.mp plain with ⟨digit, others⟩
    have noEnd : code first ≠ code '_' := fun same =>
      Encoding.notMem_digits plain (same ▸ List.mem_map_of_mem List.mem_cons_self)
    have read : Char.ofNat (code first).toNat = first := by
      have bounds : 48 ≤ first.toNat ∧ first.toNat ≤ 57 := Char.isDigit_iff_toNat.mp digit
      unfold code
      rw [Nat.toUInt8, UInt8.toNat_ofNat', Nat.mod_eq_of_lt (by omega), Char.ofNat_toNat]
    rw [List.map_cons, List.cons_append, cutAtUnderscore, if_neg noEnd, ih others, Option.map_some,
      read]

/-- The size of an array is the product of its length and the size of an element, where there is
such a length and such a size. -/
theorem sizeOf?_arrayOf (length : Option Nat) :
    sizeOf? (element.arrayOf length) =
      (boundedNumeral? 10 (capacity 64) (length.elim [] fun n => (toString n).toList)).bind
        fun number => (sizeOf? element).bind (product? number) := by
  have bytes : (element.arrayOf length).bytes = code 'A' ::
      ((length.elim [] fun n => (toString n).toList).map code ++ code '_' :: element.bytes) := by
    unfold Encoding.arrayOf
    rw [Encoding.bytes_append, Encoding.bytes_append, Encoding.bytes_append, List.append_assoc,
      List.append_assoc]
    rfl
  have cut : cutAtUnderscore ((length.elim [] fun n => (toString n).toList).map code ++
      code '_' :: element.bytes) = some (_, element.bytes) :=
    cutAtUnderscore_digits (Encoding.isDigit_of_mem_length length)
  have letter : Char.ofNat (code 'A').toNat = 'A' := by decide
  unfold sizeOf?
  rw [bytes, sizeOfBytes?]
  simp only [letter]
  split
  · next found =>
    cases cut.symm.trans found
    rfl
  · next missing => rw [cut] at missing; cases missing

theorem sizeOf?_arrayOf_none : sizeOf? (element.arrayOf none) = none := sizeOf?_arrayOf none

theorem sizeOf?_arrayOf_some {number size : Nat} (below : number < capacity 64) :
    sizeOf? (element.arrayOf (some number)) = some size ↔
      ∃ inner, sizeOf? element = some inner ∧ number * inner < capacity 64 ∧
        size = number * inner := by
  rw [sizeOf?_arrayOf]
  change ((boundedNumeral? 10 (capacity 64) (toString number).toList).bind _ = _) ↔ _
  rw [boundedNumeral?_toString below, Option.bind_some, Option.bind_eq_some_iff]
  refine exists_congr fun inner => and_congr_right fun _ => ?_
  unfold product?
  split
  · next fits => simp [fits, eq_comm]
  · next tooLarge => simp [tooLarge]

/-! ## Arrays of arrays -/

/-- The arithmetic types. -/
inductive Arithmetic where
  | bool | char | wideChar | short | int | long | longLong | float | double | longDouble
  deriving DecidableEq, Repr

namespace Arithmetic

/-- The letter of the type in encodings. -/
def letter : Arithmetic → Char
  | bool => 'b' | char => 'c' | wideChar => 'w' | short => 's' | int => 'i'
  | long => 'l' | longLong => 'j' | float => 'f' | double => 'd' | longDouble => 'r'

/-- The size of the type in bytes. -/
def size : Arithmetic → Nat
  | bool | char => 1
  | wideChar | short => 2
  | int | long | float => 4
  | longLong | double | longDouble => 8

end Arithmetic

/-- What may be said of a type without changing its size. -/
inductive Modifier where
  | signed | unsigned | const | volatile
  deriving DecidableEq, Repr

/-- The letter of the modifier in encodings. -/
def Modifier.letter : Modifier → Char
  | signed => 'S' | unsigned => 'U' | const => 'C' | volatile => 'V'

/-- The types that are built of arithmetic types and pointers. -/
inductive SizedType where
  | arithmetic (type : Arithmetic)
  /-- A pointer to anything at all. -/
  | pointer (target : Encoding)
  | modified (modifier : Modifier) (type : SizedType)
  | array (element : SizedType) (length : Option UInt64)

namespace SizedType

/-- The type as it is encoded. -/
def encoding : SizedType → Encoding
  | arithmetic type => .builtin type.letter
  | pointer target => target.pointerTo
  | modified modifier type => .builtin modifier.letter ++ type.encoding
  | array element length => element.encoding.arrayOf (length.map UInt64.toNat)

/-- The lengths of the arrays, from the outside to the inside. -/
def lengths : SizedType → List (Option UInt64)
  | arithmetic _ | pointer _ => []
  | modified _ type => type.lengths
  | array element length => length :: element.lengths

/-- The size of what is not an array any more. -/
def bottomSize : SizedType → Nat
  | arithmetic type => type.size
  | pointer _ => 4
  | modified _ type | array type _ => type.bottomSize

/-- The product of some lengths and the size at the bottom. -/
def total (type : SizedType) (lengths : List UInt64) : Nat :=
  (lengths.map UInt64.toNat).prod * type.bottomSize

end SizedType

theorem sizeOf?_builtin (type : Arithmetic) : sizeOf? (.builtin type.letter) = some type.size := by
  cases type <;> exact sizeOfBytes?.eq_def _

theorem sizeOf?_pointerTo (target : Encoding) : sizeOf? target.pointerTo = some 4 :=
  sizeOfBytes?.eq_def _

theorem sizeOf?_modified (modifier : Modifier) (target : Encoding) :
    sizeOf? (.builtin modifier.letter ++ target) = sizeOf? target := by
  cases modifier <;> exact sizeOfBytes?.eq_def _

namespace SizedType

variable {type : SizedType}

theorem bottomSize_lt (type : SizedType) : type.bottomSize < 2 ^ 64 := by
  induction type with
  | arithmetic type => cases type <;> simp [bottomSize, Arithmetic.size]
  | pointer target => simp [bottomSize]
  | modified modifier type ih => exact ih
  | array element length ih => exact ih

theorem total_nil (type : SizedType) : type.total [] = type.bottomSize := Nat.one_mul _

theorem total_cons (type : SizedType) (length : UInt64) (others : List UInt64) :
    type.total (length :: others) = length.toNat * type.total others := by
  rw [total, List.map_cons, List.prod_cons, Nat.mul_assoc]
  rfl

/-- All lengths of a type are known, and no product of inner ones and the size at the bottom is too
large for 64 bits. -/
structure Known (type : SizedType) (known : List UInt64) : Prop where
  lengths : type.lengths = known.map some
  fits : ∀ inner, inner <:+ known → type.total inner < 2 ^ 64

theorem known_nil (none : type.lengths = []) : type.Known [] where
  lengths := none
  fits inner within := by
    rw [List.suffix_nil.mp within, total_nil]
    exact bottomSize_lt type

theorem eq_nil_of_known {known : List UInt64} (none : type.lengths = []) (holds : type.Known known) :
    known = [] :=
  List.map_eq_nil_iff.mp (holds.lengths.symm.trans none)

theorem known_modified_iff {modifier : Modifier} {known : List UInt64} :
    (modified modifier type).Known known ↔ type.Known known :=
  ⟨fun holds => ⟨holds.lengths, holds.fits⟩, fun holds => ⟨holds.lengths, holds.fits⟩⟩

theorem known_array_iff {element : SizedType} {length : Option UInt64} {known : List UInt64} :
    (array element length).Known known ↔
      ∃ number others, length = some number ∧ known = number :: others ∧ element.Known others ∧
        number.toNat * element.total others < 2 ^ 64 := by
  constructor
  · intro holds
    cases known with
    | nil => exact nomatch holds.lengths
    | cons number others =>
      rcases List.cons.inj holds.lengths with ⟨front, behind⟩
      refine ⟨number, others, front, rfl, ⟨behind, fun inner within => ?_⟩, ?_⟩
      · exact holds.fits inner (within.trans (List.suffix_cons ..))
      · have whole := holds.fits _ (List.suffix_refl _)
        rwa [total_cons] at whole
  · rintro ⟨number, others, rfl, rfl, holds, fits⟩
    refine ⟨congrArg _ holds.lengths, fun inner within => ?_⟩
    rcases List.suffix_cons_iff.mp within with rfl | within
    · rw [total_cons]
      exact fits
    · exact holds.fits inner within

/-- What is no array has the size at the bottom. -/
theorem sizeOf?_eq_some_iff_of_bottom (none : type.lengths = [])
    (plain : sizeOf? type.encoding = some type.bottomSize) (size : Nat) :
    sizeOf? type.encoding = some size ↔ ∃ known, type.Known known ∧ size = type.total known := by
  constructor
  · intro same
    rw [← Option.some.inj (plain.symm.trans same)]
    exact ⟨[], known_nil none, (total_nil type).symm⟩
  · rintro ⟨known, holds, rfl⟩
    rw [eq_nil_of_known none holds, total_nil]
    exact plain

theorem sizeOf?_eq_some_iff (type : SizedType) (size : Nat) :
    sizeOf? type.encoding = some size ↔ ∃ known, type.Known known ∧ size = type.total known := by
  induction type generalizing size with
  | arithmetic type =>
    have plain : sizeOf? (arithmetic type).encoding = some (arithmetic type).bottomSize :=
      sizeOf?_builtin type
    exact sizeOf?_eq_some_iff_of_bottom rfl plain size
  | pointer target =>
    have plain : sizeOf? (pointer target).encoding = some (pointer target).bottomSize :=
      sizeOf?_pointerTo target
    exact sizeOf?_eq_some_iff_of_bottom rfl plain size
  | modified modifier type ih =>
    rw [encoding, sizeOf?_modified, ih]
    exact exists_congr fun known => and_congr_left fun _ => known_modified_iff.symm
  | array element length ih =>
    cases length with
    | none =>
      rw [encoding, Option.map_none, sizeOf?_arrayOf_none]
      constructor
      · intro same
        cases same
      · rintro ⟨known, holds, -⟩
        rcases known_array_iff.mp holds with ⟨number, others, same, -⟩
        cases same
    | some number =>
      rw [encoding, Option.map_some, sizeOf?_arrayOf_some number.toNat_lt]
      constructor
      · rintro ⟨inner, same, fits, rfl⟩
        rcases (ih inner).mp same with ⟨others, holds, rfl⟩
        exact ⟨number :: others, known_array_iff.mpr ⟨number, others, rfl, rfl, holds, fits⟩,
          (total_cons ..).symm⟩
      · rintro ⟨known, holds, rfl⟩
        rcases known_array_iff.mp holds with ⟨_, others, same, rfl, behind, fits⟩
        cases same
        exact ⟨element.total others, (ih _).mpr ⟨others, behind, rfl⟩, fits, total_cons ..⟩

end SizedType

/-- The size of a type is the product of the lengths of all its arrays and of the size at the
bottom, where all lengths are known and no product on the way from the bottom is too large for 64
bits.  Otherwise there is no size, and so there is none where a length is missing. -/
theorem sizeOf?_arrays (type : SizedType) :
    (∀ size, sizeOf? type.encoding = some size ↔
      ∃ known, type.Known known ∧ size = type.total known) ∧
    (none ∈ type.lengths → sizeOf? type.encoding = none) := by
  refine ⟨type.sizeOf?_eq_some_iff, fun missing => ?_⟩
  refine Option.eq_none_iff_forall_ne_some.mpr fun size same => ?_
  rcases (type.sizeOf?_eq_some_iff size).mp same with ⟨known, holds, -⟩
  rw [holds.lengths] at missing
  rcases List.mem_map.mp missing with ⟨number, -, impossible⟩
  cases impossible

/-- A length of zero further out does not help, a length of zero further in does. -/
example :
    sizeOf? (SizedType.array (.array (.arithmetic .int) (some 0x4000000000000000)) (some 0)).encoding
      = none ∧
    sizeOf? (SizedType.array (.array (.arithmetic .int) (some 0)) (some 0x4000000000000000)).encoding
      = some 0 := by
  decide +kernel

end Constant
end CppNames
