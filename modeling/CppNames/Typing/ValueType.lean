import CppNames.Encoding.Parts

namespace CppNames
namespace Encoding

/-!
# Types of values

How the type of a value changes when the value is used: references and qualifiers are
dropped, arrays become pointers, and small arithmetic types become larger ones.
-/

/-! ## References, pointers and arrays -/

/-- The type without a reference in front of it. -/
def withoutReference (type : Encoding) : Encoding :=
  if type.beginsWith 'R' then ⟨type.bytes.drop 1⟩ else type

/-- The type of a value of a type: without a reference, const and volatile. -/
def bare (type : Encoding) : Encoding := type.withoutReference.stripCv

/-- Whether the type is a pointer. -/
def isPointer (type : Encoding) : Bool := type.beginsWith 'P'

/-- The type of the elements of an array type. -/
def element? (type : Encoding) : Option Encoding :=
  if type.beginsWith 'A' then
    match type.bytes.dropWhile (· ≠ code '_') with
    | [] => none
    | _ :: behind => some ⟨behind⟩
  else none

/-- The type of what a pointer points to, or of what an array holds. -/
def target? (type : Encoding) : Option Encoding :=
  let bare := type.bare
  if bare.isPointer then some ⟨bare.bytes.drop 1⟩ else bare.element?

/-- The type of a value whose arrays are used as pointers. -/
def decayed (type : Encoding) : Encoding :=
  let bare := type.bare
  match bare.element? with
  | some element => element.pointerTo
  | none => bare

/-- Whether the type is the name of a class, an enumeration or a type definition. -/
def isName (type : Encoding) : Bool := type.isSimpleName || type.isQualified || type.isTemplateId

/-- Whether a byte is a pointer, a reference or a qualifier in front of a type. -/
def isLayer (byte : UInt8) : Bool :=
  byte == code 'C' || byte == code 'V' || byte == code 'P' || byte == code 'R'

/-- The pointers, references and qualifiers in front of a type. -/
def layers (type : Encoding) : Encoding := ⟨type.bytes.takeWhile isLayer⟩

/-- The type behind its pointers, references and qualifiers. -/
def core (type : Encoding) : Encoding := ⟨type.bytes.dropWhile isLayer⟩

@[simp] theorem layers_append_core (type : Encoding) : type.layers ++ type.core = type := by
  change Encoding.mk (_ ++ _) = type
  rw [layers, core, List.takeWhile_append_dropWhile]

/-! ## Arithmetic -/

/-- The place of an arithmetic type among all of them.  Types in place zero are promoted
to `int` before they are used.  A sign that is written out makes no difference. -/
def arithmeticRank? (type : Encoding) : Option Nat :=
  let unsignedOnly := if type.beginsWith 'S' then ⟨type.bytes.drop 1⟩ else type
  match unsignedOnly.text with
  | "b" | "c" | "Uc" | "s" | "Us" | "w" => some 0
  | "i" => some 1
  | "Ui" => some 2
  | "l" => some 3
  | "Ul" => some 4
  | "j" => some 5
  | "Uj" => some 6
  | "f" => some 7
  | "d" => some 8
  | "r" => some 9
  | _ => none

/-- The type of an arithmetic value once it is promoted. -/
def promoted? (type : Encoding) : Option Encoding :=
  let bare := type.bare
  bare.arithmeticRank?.map fun rank => if rank = 0 then builtin 'i' else bare

/-- The common type of the operands of an arithmetic operator: the promoted type that
comes later, and the left one of equals. -/
def common? (left right : Encoding) : Option Encoding := do
  let left ← left.promoted?
  let right ← right.promoted?
  some (if (← right.arithmeticRank?) ≤ (← left.arithmeticRank?) then left else right)

/-! ## Functions -/

/-- The function type that a call through a value of a type calls. -/
def called? (type : Encoding) : Option Encoding :=
  let bare := type.bare
  if bare.isFunction then some bare else bare.target?

end Encoding
end CppNames
