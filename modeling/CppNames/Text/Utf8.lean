namespace CppNames

/-!
# Reading UTF-8

Names are kept as bytes and cut to a fixed length, so a name may end inside a
character.  Decoding answers, for each piece of the bytes, the character it encodes
or nothing where it encodes none.  A piece that encodes nothing is as long as the
bytes can be read as the front of some character, and one byte at least.
-/

/-- What a first byte promises: the bits it contributes, how many bytes follow, and
the bounds of the byte that follows directly. -/
structure LeadByte where
  payload : Nat
  following : Nat
  low : Nat
  high : Nat
  deriving DecidableEq, Repr

/-- The promise of a first byte; bytes that begin no character make none. -/
def LeadByte.ofByte? (byte : UInt8) : Option LeadByte :=
  let b := byte.toNat
  if b < 0x80 then some ⟨b, 0, 0x80, 0xBF⟩
  else if b < 0xC2 then none
  else if b < 0xE0 then some ⟨b - 0xC0, 1, 0x80, 0xBF⟩
  else if b == 0xE0 then some ⟨0, 2, 0xA0, 0xBF⟩
  else if b == 0xED then some ⟨0xD, 2, 0x80, 0x9F⟩
  else if b < 0xF0 then some ⟨b - 0xE0, 2, 0x80, 0xBF⟩
  else if b == 0xF0 then some ⟨0, 3, 0x90, 0xBF⟩
  else if b < 0xF4 then some ⟨b - 0xF0, 3, 0x80, 0xBF⟩
  else if b == 0xF4 then some ⟨4, 3, 0x80, 0x8F⟩
  else none

/-- Reads the bytes that follow a first byte.  The answer is the character, if all of
them are there, and how many were read. -/
def readFollowing (value : Nat) : (following low high : Nat) → List UInt8 → Option Char × Nat
  | 0, _, _, _ => (some (Char.ofNat value), 0)
  | _ + 1, _, _, [] => (none, 0)
  | following + 1, low, high, byte :: rest =>
    if low ≤ byte.toNat && byte.toNat ≤ high then
      let (read, count) :=
        readFollowing (value * 64 + (byte.toNat - 0x80)) following 0x80 0xBF rest
      (read, count + 1)
    else (none, 0)

/-- Reads the piece that begins with a given byte: its character, and how many further
bytes it has. -/
def readCharacter (byte : UInt8) (rest : List UInt8) : Option Char × Nat :=
  match LeadByte.ofByte? byte with
  | some lead => readFollowing lead.payload lead.following lead.low lead.high rest
  | none => (none, 0)

/-- The characters that bytes encode, piece by piece. -/
def decodeUtf8 : List UInt8 → List (Option Char)
  | [] => []
  | byte :: rest =>
    let (read, count) := readCharacter byte rest
    read :: decodeUtf8 (rest.drop count)
  termination_by bytes => bytes.length
  decreasing_by simp only [List.length_cons, List.length_drop]; omega

/-- The text that bytes encode, if all of them encode characters. -/
def textOfUtf8? (bytes : List UInt8) : Option String :=
  ((decodeUtf8 bytes).mapM id).map String.ofList

/-- The text that bytes encode, with a replacement character for every piece that
encodes none. -/
def textOfUtf8 (bytes : List UInt8) : String :=
  String.ofList ((decodeUtf8 bytes).map (·.getD '\uFFFD'))

/-- The bytes of a text. -/
def utf8Bytes (text : String) : List UInt8 := text.toUTF8.toList

theorem toList_loop (bytes : ByteArray) (index : Nat) (read : List UInt8) :
    ByteArray.toList.loop bytes index read = read.reverse ++ bytes.data.toList.drop index := by
  fun_induction ByteArray.toList.loop bytes index read with
  | case1 index read inside ih =>
    have front : bytes.data.toList.drop index =
        bytes.get! index :: bytes.data.toList.drop (index + 1) := by
      have there : index < bytes.data.toList.length := inside
      rw [List.drop_eq_getElem_cons there, Array.getElem_toList]
      exact congrArg (· :: _) (getElem!_pos bytes.data index inside).symm
    rw [ih, front, List.reverse_cons, List.append_assoc]
    rfl
  | case2 index read outside =>
    have none : bytes.data.toList.drop index = [] :=
      List.drop_of_length_le (Nat.le_of_not_lt outside)
    rw [none, List.append_nil]

/-- A text is known by its bytes. -/
theorem utf8Bytes_inj {text other : String} : utf8Bytes text = utf8Bytes other ↔ text = other := by
  have data (text : String) : utf8Bytes text = text.toByteArray.data.toList :=
    toList_loop text.toByteArray 0 []
  rw [data, data, Array.toList_inj, ← String.toByteArray_inj, ByteArray.ext_iff]

end CppNames
