import CppNames.Encoding.Basic

namespace CppNames
namespace Encoding

/-!
# Where an encoding ends

The first byte of an encoding tells what follows it, so the end of a complete type or
name is found by reading forward.  The packed arguments of a template-id are passed
over by their length alone, even where fewer bytes are there; only then can an extent
be longer than the bytes.
-/

/-- What the first byte of an encoding announces. -/
inductive Mark where
  | modifier
  | array
  | memberPointer
  | function
  | qualified
  | template
  | builtin (text : String)
  | name (length : Nat)
  | unknown
  deriving DecidableEq, Repr

/-- The builtin types with their texts, and the marks that stand for one type. -/
def builtinText? : Char → Option String
  | 'b' => some "bool"
  | 'c' => some "char"
  | 'w' => some "wchar_t"
  | 'i' => some "int"
  | 's' => some "short"
  | 'l' => some "long"
  | 'j' => some "long long"
  | 'f' => some "float"
  | 'd' => some "double"
  | 'r' => some "long double"
  | 'v' => some "void"
  | 'e' => some "..."
  | '*' => some "*"
  | '?' => some ""
  | _ => none

/-- What a byte announces. -/
def Mark.ofByte (byte : UInt8) : Mark :=
  match lengthOf? byte with
  | some length => .name length
  | none =>
    match Char.ofNat byte.toNat with
    | 'S' | 'U' | 'C' | 'V' | 'P' | 'R' => .modifier
    | 'A' => .array
    | 'M' => .memberPointer
    | 'F' => .function
    | 'Q' => .qualified
    | 'T' => .template
    | c => (builtinText? c).elim .unknown .builtin

/-- The length of an array with the underscore behind it, in bytes. -/
def arrayLengthExtent : List UInt8 → Option Nat
  | [] => none
  | byte :: rest =>
    if byte = code '_' then some 1 else (arrayLengthExtent rest).map (· + 1)

mutual

/-- The extent of the type or name at the front of the bytes.  The first argument
bounds how deep the reading may nest. -/
def extentWithin : Nat → List UInt8 → Option Nat
  | 0, _ => none
  | _ + 1, [] => none
  | depth + 1, byte :: rest =>
    match Mark.ofByte byte with
    | .modifier => (extentWithin depth rest).map (1 + ·)
    | .array => do
      let length ← arrayLengthExtent rest
      let element ← extentWithin depth (rest.drop length)
      some (1 + length + element)
    | .memberPointer => do
      let owner ← extentWithin depth rest
      let member ← extentWithin depth (rest.drop owner)
      some (1 + owner + member)
    | .function => do
      let parameters ← parametersExtentWithin depth rest
      let result ← extentWithin depth (rest.drop parameters)
      some (1 + parameters + result)
    | .qualified => do
      let count ← rest.head? >>= lengthOf?
      let components ← componentsExtentWithin depth count (rest.drop 1)
      some (2 + components)
    | .template => do
      let name ← extentWithin depth rest
      let packed ← (rest.drop name).head? >>= lengthOf?
      some (1 + name + 1 + packed)
    | .builtin _ => some 1
    | .name length => if length ≤ rest.length then some (1 + length) else none
    | .unknown => none

/-- The extent of a parameter list with the underscore behind it. -/
def parametersExtentWithin : Nat → List UInt8 → Option Nat
  | 0, _ => none
  | _ + 1, [] => none
  | depth + 1, byte :: rest =>
    if byte = code '_' then some 1
    else do
      let first ← extentWithin depth (byte :: rest)
      let others ← parametersExtentWithin depth ((byte :: rest).drop first)
      some (first + others)

/-- The extent of a given number of components. -/
def componentsExtentWithin : Nat → Nat → List UInt8 → Option Nat
  | _, 0, _ => some 0
  | 0, _ + 1, _ => none
  | depth + 1, count + 1, bytes => do
    let first ← extentWithin depth bytes
    let others ← componentsExtentWithin depth count (bytes.drop first)
    some (first + others)

end

/-- A depth that suffices for bytes: every nested reading passes one byte, and every
list of types adds one level for each of its types. -/
def depthFor (bytes : List UInt8) : Nat := 2 * bytes.length + 2

/-- The extent of the type or name at the front of the bytes. -/
def extent (bytes : List UInt8) : Option Nat := extentWithin (depthFor bytes) bytes

end Encoding
end CppNames
