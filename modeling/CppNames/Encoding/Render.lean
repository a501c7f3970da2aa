import CppNames.Encoding.Parts

namespace CppNames
namespace Encoding

/-!
# Encodings as readable text

A type is written roughly as in a program, with modifiers spelled out and
declarators behind the type they apply to.  Rendering reads the same format as
`extent` and ends where it ends, but also looks into packed template arguments.
-/

/-- A modifier in front of or behind the text of the type it modifies. -/
def modified (byte : UInt8) (rest : List UInt8) (inner : String) : String :=
  match Char.ofNat byte.toNat with
  | 'S' => "signed " ++ inner
  | 'U' => "unsigned " ++ inner
  | 'V' => "volatile " ++ inner
  | 'C' => if rest.head? = some (code 'F') then inner ++ " const" else "const " ++ inner
  | 'P' => inner ++ "*"
  | _ => inner ++ "&"

/-- A parameter list with its result; a single `void` is an empty list. -/
def functionText (parameters : List String) (result : String) : String :=
  let shown := if parameters = ["void"] then [] else parameters
  let lead := if result.isEmpty then "" else result ++ " "
  lead ++ "(" ++ ", ".intercalate shown ++ ")"

/-- The length or count that the first byte tells. -/
def firstLength (bytes : List UInt8) : Except Flaw Nat :=
  match bytes.head? >>= lengthOf? with
  | some length => .ok length
  | none => .error .malformed

mutual

/-- The text of the type or name at the front of the bytes, and its extent. -/
def renderWithin : Nat → List UInt8 → Except Flaw (String × Nat)
  | 0, _ => .error .malformed
  | _ + 1, [] => .error .malformed
  | depth + 1, byte :: rest =>
    match Mark.ofByte byte with
    | .modifier => do
      let (inner, length) ← renderWithin depth rest
      .ok (modified byte rest inner, 1 + length)
    | .array =>
      match arrayLengthExtent rest with
      | none => .error .malformed
      | some length => do
        let (inner, element) ← renderWithin depth (rest.drop length)
        let digits := (rest.take (length - 1)).map fun digit => Char.ofNat digit.toNat
        .ok (inner ++ "[" ++ String.ofList digits ++ "]", 1 + length + element)
    | .memberPointer => do
      let (owner, ownerLength) ← renderWithin depth rest
      let (member, memberLength) ← renderWithin depth (rest.drop ownerLength)
      .ok (s!"{member} {owner}::*", 1 + ownerLength + memberLength)
    | .function => do
      let (parameters, length) ← renderParametersWithin depth rest
      let (result, resultLength) ← renderWithin depth (rest.drop length)
      .ok (functionText parameters result, 1 + length + resultLength)
    | .qualified => do
      let count ← firstLength rest
      let (components, length) ← renderComponentsWithin depth count (rest.drop 1)
      .ok ("::".intercalate components, 2 + length)
    | .template => do
      let (name, nameLength) ← renderWithin depth rest
      let packed ← firstLength (rest.drop nameLength)
      let behind := (rest.drop nameLength).drop 1
      if packed ≤ behind.length then
        let arguments ← splitTypes (behind.take packed)
        let texts ← renderListWithin depth arguments
        .ok (name ++ "<" ++ ",".intercalate texts ++ ">", 1 + nameLength + 1 + packed)
      else .error .malformed
    | .builtin text => .ok (text, 1)
    | .name length =>
      if length ≤ rest.length then .ok (textOfUtf8 (rest.take length), 1 + length)
      else .error .malformed
    | .unknown => .error .malformed

/-- The texts of a parameter list, and its extent with the underscore behind it. -/
def renderParametersWithin : Nat → List UInt8 → Except Flaw (List String × Nat)
  | 0, _ => .error .malformed
  | _ + 1, [] => .error .malformed
  | depth + 1, byte :: rest =>
    if byte = code '_' then .ok ([], 1)
    else do
      let (first, length) ← renderWithin depth (byte :: rest)
      let (others, othersLength) ← renderParametersWithin depth ((byte :: rest).drop length)
      .ok (first :: others, length + othersLength)

/-- The texts of a given number of components, and their extent. -/
def renderComponentsWithin : Nat → Nat → List UInt8 → Except Flaw (List String × Nat)
  | _, 0, _ => .ok ([], 0)
  | 0, _ + 1, _ => .error .malformed
  | depth + 1, count + 1, bytes => do
    let (first, length) ← renderWithin depth bytes
    let (others, othersLength) ← renderComponentsWithin depth count (bytes.drop length)
    .ok (first :: others, length + othersLength)

/-- The text of bytes that hold types or names one behind the other.  What cannot be
read is shown by one mark. -/
def renderAllWithin : Nat → List UInt8 → Except Flaw String
  | _, [] => .ok ""
  | 0, _ :: _ => .ok "<?>"
  | depth + 1, byte :: rest =>
    match renderWithin depth (byte :: rest) with
    | .ok (text, length) => (renderAllWithin depth ((byte :: rest).drop length)).map (text ++ ·)
    | .error .malformed => .ok "<?>"
    | .error .overrun => .error .overrun

/-- The texts of a list of types. -/
def renderListWithin : Nat → List Encoding → Except Flaw (List String)
  | _, [] => .ok []
  | 0, _ :: _ => .error .malformed
  | depth + 1, first :: others => do
    let text ← renderAllWithin depth first.bytes
    let texts ← renderListWithin depth others
    .ok (text :: texts)

end

/-- Where no byte is left, no type or name is read. -/
theorem renderWithin_nil (depth : Nat) : renderWithin depth [] = .error .malformed := by
  cases depth with
  | zero => rw [renderWithin]
  | succ depth => rw [renderWithin]

/-- A depth that suffices to render bytes: three levels for each nested byte and one
for each type of a list. -/
def renderDepthFor (bytes : List UInt8) : Nat := 4 * bytes.length + 4

/-- The text of the type or name at the front of the bytes, and its extent. -/
def render (bytes : List UInt8) : Except Flaw (String × Nat) :=
  renderWithin (renderDepthFor bytes) bytes

/-- The encoding as readable text. -/
def readable (encoding : Encoding) : Except Flaw String :=
  renderAllWithin (renderDepthFor encoding.bytes) encoding.bytes

end Encoding
end CppNames
