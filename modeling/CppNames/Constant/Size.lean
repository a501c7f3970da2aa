import CppNames.Encoding.Basic
import CppNames.Text.Numeral

namespace CppNames
namespace Constant

/-!
# Sizes of types

Builtin types, pointers and arrays of them have a size in bytes.  A size that 64 bits
cannot hold is no size.
-/

/-- The bytes behind the first underscore, and the characters in front of it. -/
def cutAtUnderscore : List UInt8 → Option (List Char × List UInt8)
  | [] => none
  | byte :: rest =>
    if byte = Encoding.code '_' then some ([], rest)
    else (cutAtUnderscore rest).map fun (front, behind) =>
      (Char.ofNat byte.toNat :: front, behind)

theorem length_cutAtUnderscore {bytes behind : List UInt8} {front : List Char}
    (cut : cutAtUnderscore bytes = some (front, behind)) : behind.length < bytes.length := by
  induction bytes generalizing front with
  | nil => simp [cutAtUnderscore] at cut
  | cons byte rest ih =>
    unfold cutAtUnderscore at cut
    split at cut
    · simp_all
    · obtain ⟨⟨inner, tail⟩, found, same⟩ := Option.map_eq_some_iff.1 cut
      obtain ⟨-, rfl⟩ := Prod.mk.inj same
      have shorter := ih found
      simp only [List.length_cons]
      omega

/-- The product of two sizes, if it is a size. -/
def product? (left right : Nat) : Option Nat :=
  if left * right < capacity 64 then some (left * right) else none

/-- The size of the type at the front of the bytes. -/
def sizeOfBytes? : List UInt8 → Option Nat
  | [] => none
  | byte :: rest =>
    match Char.ofNat byte.toNat with
    | 'b' | 'c' => some 1
    | 'w' | 's' => some 2
    | 'i' | 'l' | 'f' | 'P' => some 4
    | 'j' | 'd' | 'r' => some 8
    | 'S' | 'U' | 'C' | 'V' | 'R' => sizeOfBytes? rest
    | 'A' =>
      match _cut : cutAtUnderscore rest with
      | some (digits, behind) => do
        let count ← boundedNumeral? 10 (capacity 64) digits
        let element ← sizeOfBytes? behind
        product? count element
      | none => none
    | _ => none
  termination_by bytes => bytes.length
  decreasing_by
    · simp
    · have := length_cutAtUnderscore _cut
      simp only [List.length_cons]
      omega

/-- The size of a type in bytes. -/
def sizeOf? (type : Encoding) : Option Nat := sizeOfBytes? type.bytes

end Constant
end CppNames
