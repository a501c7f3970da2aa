import CppNames.Encoding.Extent

namespace CppNames
namespace Encoding

/-!
# Parts of names and types

A qualified name is taken apart into its components, a template-id into its name and
arguments, and a function type into its parameters and its result.  Reading may fail
in two ways.  An encoding may be malformed, which each function answers with what
could be read so far; or it may announce more bytes than it has, in which case there
is no answer.
-/

/-- Why a part of an encoding cannot be read. -/
inductive Flaw where
  /-- The bytes are no complete type or name. -/
  | malformed
  /-- The bytes end before a length that they tell. -/
  | overrun
  deriving DecidableEq, Repr

/-- The complete type or name at the front of the bytes, and the bytes behind it. -/
def front (bytes : List UInt8) : Except Flaw (Encoding × List UInt8) :=
  match extent bytes with
  | none => .error .malformed
  | some length =>
    if length ≤ bytes.length then .ok (⟨bytes.take length⟩, bytes.drop length)
    else .error .overrun

/-- At most a given number of types or names from the front of the bytes; a malformed
one ends them. -/
def fronts : Nat → List UInt8 → Except Flaw (List Encoding)
  | 0, _ => .ok []
  | count + 1, bytes =>
    match front bytes with
    | .ok (first, rest) => (fronts count rest).map (first :: ·)
    | .error .malformed => .ok []
    | .error .overrun => .error .overrun

/-- The types or names that stand one behind the other in the bytes. -/
def splitTypes (bytes : List UInt8) : Except Flaw (List Encoding) :=
  fronts bytes.length bytes

/-- The components of a qualified name; any other encoding is its own component. -/
def names (encoding : Encoding) : Except Flaw (List Encoding) :=
  if encoding.isQualified then
    let count := (encoding.bytes[1]? >>= lengthOf?).getD 0
    fronts count (encoding.bytes.drop 2)
  else .ok [encoding]

/-- The first component of a qualified name, and nothing of any other encoding. -/
def outermost (encoding : Encoding) : Except Flaw Encoding :=
  if encoding.isQualified then encoding.names.map fun parts => parts.headD empty
  else .ok empty

/-- What stands behind the first component of a qualified name; any other encoding is
all there is. -/
def behindOutermost (encoding : Encoding) : Except Flaw Encoding :=
  if encoding.isQualified then encoding.names.map fun parts => qualified parts.tail
  else .ok encoding

/-- The last component of a qualified name; any other encoding is its own last
component. -/
def lastName (encoding : Encoding) : Except Flaw Encoding :=
  if encoding.isQualified then encoding.names.map fun parts => parts.getLastD empty
  else .ok encoding

/-- The name of a template-id; any other encoding is its own name. -/
def templateName (encoding : Encoding) : Except Flaw Encoding :=
  if encoding.isTemplateId then
    match front (encoding.bytes.drop 1) with
    | .ok (name, _) => .ok name
    | .error .malformed => .ok empty
    | .error .overrun => .error .overrun
  else .ok encoding

/-- The bytes that a length byte announces, as far as they are there. -/
def announced : List UInt8 → List UInt8
  | [] => []
  | byte :: rest => rest.take ((lengthOf? byte).getD 0)

/-- The arguments of a template-id; any other encoding has none. -/
def templateArguments (encoding : Encoding) : Except Flaw (List Encoding) :=
  if encoding.isTemplateId then
    let behind := encoding.bytes.drop 1
    match extent behind with
    | some name => splitTypes (announced (behind.drop name))
    | none => .ok []
  else .ok []

/-- The types in front of an underscore, and the bytes behind the underscore.  The
first argument bounds their number. -/
def parameterFronts : Nat → List UInt8 → Except Flaw (List Encoding × List UInt8)
  | 0, _ => .error .malformed
  | _ + 1, [] => .error .malformed
  | count + 1, byte :: rest =>
    if byte = code '_' then .ok ([], rest)
    else do
      let (first, others) ← front (byte :: rest)
      let (parameters, behind) ← parameterFronts count others
      .ok (first :: parameters, behind)

/-- The parameters and the result of a function type.  A single `void` is an empty
list, and an ellipsis is a parameter of its own. -/
def functionParts (encoding : Encoding) : Except Flaw (List Encoding × Encoding) :=
  match behindFunction? encoding.bytes with
  | none => .error .malformed
  | some bytes => do
    let (parameters, behind) ← parameterFronts (bytes.length + 1) bytes
    let (result, _) ← front behind
    .ok (if parameters = [builtin 'v'] then [] else parameters, result)

end Encoding
end CppNames
