import CppNames.Text.Utf8

namespace CppNames

/-!
# Encoded names and types

A name or a type is a byte string.  Two encodings are equal exactly when they stand
for the same name or type, which makes them the keys of every scope.

| bytes | meaning |
|---|---|
| `0x80+n` and `n` bytes | simple name |
| `0x80` alone, as a component | the global scope |
| `b c w i s l j f d r v` | the builtin types from `bool` to `void` |
| `S U C V` | signed, unsigned, const, volatile, in front of the type they modify |
| `P R` | pointer and reference to the type that follows |
| `A<digits>_` | array of the type that follows |
| `F<parameters>_<result>` | function; `v` for no parameters, `e` for an ellipsis |
| `CF...` | const member function |
| `Q<0x80+n><component>...` | qualified name of `n` components |
| `T<name><0x80+n><n bytes>` | template-id with its packed arguments |
| `M<class><type>` | pointer to member |
| `?` | no result type |
| `*` | template parameter that is not a type |
-/

/-- An encoded name or type. -/
structure Encoding where
  bytes : List UInt8
  deriving DecidableEq, Repr, Inhabited

namespace Encoding

/-- The largest length or count that one byte can tell. -/
def limit : Nat := 127

/-- The byte that tells a length or count of at most `limit`. -/
def lengthByte (length : Nat) : UInt8 := (0x80 + min length limit).toUInt8

/-- The length or count that a byte tells, if it tells one. -/
def lengthOf? (byte : UInt8) : Option Nat :=
  if 0x80 ≤ byte then some (byte.toNat - 0x80) else none

/-- The byte of an ASCII character. -/
def code (c : Char) : UInt8 := c.toNat.toUInt8

/-! ## Building -/

/-- The encoding of no bytes. -/
def empty : Encoding := ⟨[]⟩

/-- The encoding with another one behind it. -/
def append (front back : Encoding) : Encoding := ⟨front.bytes ++ back.bytes⟩

instance : Append Encoding := ⟨append⟩

/-- The encodings of a list, one behind the other. -/
def concat (parts : List Encoding) : Encoding := ⟨parts.flatMap (·.bytes)⟩

/-- Bytes behind their length.  What a length byte cannot tell is cut off. -/
def counted (bytes : List UInt8) : Encoding :=
  ⟨lengthByte bytes.length :: bytes.take limit⟩

/-- The encoding of an identifier, cut to the longest name that can be told. -/
def simpleName (name : String) : Encoding := counted (utf8Bytes name)

/-- The component in front of a name that begins with `::`. -/
def globalScope : Encoding := ⟨[0x80]⟩

/-- A builtin type. -/
def builtin (c : Char) : Encoding := ⟨[code c]⟩

/-- Components joined into a qualified name.  One component stands for itself, and all
components are kept even where their count cannot be told. -/
def qualified : List Encoding → Encoding
  | [] => empty
  | [single] => single
  | components => ⟨code 'Q' :: lengthByte components.length :: (concat components).bytes⟩

/-- A template name with its arguments. -/
def templateId (name : String) (arguments : List Encoding) : Encoding :=
  builtin 'T' ++ simpleName name ++ counted (concat arguments).bytes

/-- A function type.  An empty parameter list is written as one `void`. -/
def function (parameters : List Encoding) (ellipsis : Bool) (result : Encoding) : Encoding :=
  let written := if parameters.isEmpty && !ellipsis then builtin 'v' else concat parameters
  let dots := if ellipsis then builtin 'e' else empty
  builtin 'F' ++ written ++ dots ++ builtin '_' ++ result

/-- A pointer to a type. -/
def pointerTo (target : Encoding) : Encoding := builtin 'P' ++ target

/-- A reference to a type. -/
def referenceTo (target : Encoding) : Encoding := builtin 'R' ++ target

/-- The const form of a type. -/
def constOf (target : Encoding) : Encoding := builtin 'C' ++ target

/-- The volatile form of a type. -/
def volatileOf (target : Encoding) : Encoding := builtin 'V' ++ target

/-- An array of a type, with or without a known length. -/
def arrayOf (element : Encoding) (length : Option Nat) : Encoding :=
  let digits : Encoding := ⟨(length.elim [] fun n => (toString n).toList).map code⟩
  builtin 'A' ++ digits ++ builtin '_' ++ element

/-! ## Looking at the front -/

/-- Whether the encoding has no bytes. -/
def isEmpty (encoding : Encoding) : Bool := encoding.bytes.isEmpty

/-- Whether the encoding begins with the byte of a character. -/
def beginsWith (encoding : Encoding) (c : Char) : Bool :=
  encoding.bytes.head? == some (code c)

/-- Whether the encoding is a simple name. -/
def isSimpleName (encoding : Encoding) : Bool :=
  encoding.bytes.head?.any (0x80 ≤ ·)

/-- Whether the encoding is the component of the global scope. -/
def isGlobalScope (encoding : Encoding) : Bool := encoding == globalScope

/-- Whether the encoding is a qualified name. -/
def isQualified (encoding : Encoding) : Bool := encoding.beginsWith 'Q'

/-- Whether the encoding is a template-id. -/
def isTemplateId (encoding : Encoding) : Bool := encoding.beginsWith 'T'

/-- What stands behind the `F` or `CF` of a function type. -/
def behindFunction? : List UInt8 → Option (List UInt8)
  | [] => none
  | first :: rest =>
    if first = code 'F' then some rest
    else if first = code 'C' then
      match rest with
      | second :: more => if second = code 'F' then some more else none
      | [] => none
    else none

/-- Whether the encoding is a function type, const or not. -/
def isFunction (encoding : Encoding) : Bool := (behindFunction? encoding.bytes).isSome

/-- The text of a simple name whose bytes are all there and encode characters. -/
def identifier? (encoding : Encoding) : Option String :=
  match encoding.bytes with
  | [] => none
  | first :: rest => do
    let length ← lengthOf? first
    if length ≤ rest.length then textOfUtf8? (rest.take length) else none

/-- Whether a byte is a const or volatile modifier. -/
def isCvByte (byte : UInt8) : Bool := byte == code 'C' || byte == code 'V'

/-- The type without its outermost const and volatile modifiers.  On a function they
tell what kind of function it is, and stay. -/
def stripCv (encoding : Encoding) : Encoding :=
  let bare : Encoding := ⟨encoding.bytes.dropWhile isCvByte⟩
  if bare.beginsWith 'F' then encoding else bare

/-- The bytes as text, lengths and counts as numbers in brackets. -/
def text (encoding : Encoding) : String :=
  String.join <| encoding.bytes.map fun byte =>
    match lengthOf? byte with
    | some length => s!"[{length}]"
    | none => String.singleton (Char.ofNat byte.toNat)

end Encoding

end CppNames
