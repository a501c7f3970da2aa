import CppNames.Text.Numeral

namespace CppNames
namespace Options

/-!
# Marks of written options

Options are written in JSON.  A text is first cut into marks: punctuation, words, strings
and natural numbers.  Options hold no other numbers, so a text with a sign, a fraction or
an exponent has no marks.
-/

/-- A mark of a text in JSON. -/
inductive Mark where
  | openBrace
  | closeBrace
  | openBracket
  | closeBracket
  | comma
  | colon
  | null
  | truth (value : Bool)
  | natural (value : Nat)
  | text (value : String)
  deriving DecidableEq, Repr

/-! ## Strings -/

/-- The character of an escape with one letter. -/
def escaped? : Char → Option Char
  | '"' => some '"'
  | '\\' => some '\\'
  | '/' => some '/'
  | 'b' => some '\x08'
  | 'f' => some '\x0c'
  | 'n' => some '\n'
  | 'r' => some '\r'
  | 't' => some '\t'
  | _ => none

/-- A value in front of a list that is read so far, and the text behind it. -/
def inFront (value : Nat) : Option (List Nat × List Char) → Option (List Nat × List Char) :=
  Option.map fun (values, behind) => (value :: values, behind)

/-- The codes of the characters up to the next quote, and the text behind the quote.  A
character beyond the first plane may be escaped as two halves, which are codes of their
own here. -/
def codes? : List Char → Option (List Nat × List Char)
  | [] => none
  | '"' :: rest => some ([], rest)
  | '\\' :: 'u' :: a :: b :: c :: d :: rest => do
    let code ← numeral? 16 [a, b, c, d]
    inFront code (codes? rest)
  | '\\' :: c :: rest => do
    let character ← escaped? c
    inFront character.toNat (codes? rest)
  | c :: rest => if c.toNat < 0x20 then none else inFront c.toNat (codes? rest)

/-- Whether a code is the first half of a character. -/
def isLeading (code : Nat) : Bool := 0xD800 ≤ code && code < 0xDC00

/-- Whether a code is the second half of a character. -/
def isTrailing (code : Nat) : Bool := 0xDC00 ≤ code && code < 0xE000

/-- The character of two halves. -/
def ofHalves (leading trailing : Nat) : Char :=
  Char.ofNat (0x10000 + (leading - 0xD800) * 0x400 + (trailing - 0xDC00))

/-- The characters of some codes, of which every half has its other half. -/
def characters? : List Nat → Option (List Char)
  | [] => some []
  | [code] => if isLeading code || isTrailing code then none else some [Char.ofNat code]
  | code :: next :: rest =>
    if isLeading code then
      if isTrailing next then (characters? rest).map (ofHalves code next :: ·) else none
    else if isTrailing code then none
    else (characters? (next :: rest)).map (Char.ofNat code :: ·)

/-- The string up to the next quote, and the text behind the quote. -/
def string? (text : List Char) : Option (String × List Char) := do
  let (codes, behind) ← codes? text
  let characters ← characters? codes
  some (String.ofList characters, behind)

/-! ## Marks -/

/-- Whether a character is blank. -/
def isBlank (c : Char) : Bool := c == ' ' || c == '\t' || c == '\n' || c == '\r'

/-- The value of digits, which have no zero in front of them. -/
def natural? (digits : List Char) : Option Nat :=
  if digits.head? = some '0' && 1 < digits.length then none else numeral? 10 digits

/-- The mark at the front of a text, and the text behind it. -/
def mark? : List Char → Option (Mark × List Char)
  | [] => none
  | '{' :: rest => some (.openBrace, rest)
  | '}' :: rest => some (.closeBrace, rest)
  | '[' :: rest => some (.openBracket, rest)
  | ']' :: rest => some (.closeBracket, rest)
  | ',' :: rest => some (.comma, rest)
  | ':' :: rest => some (.colon, rest)
  | 'n' :: 'u' :: 'l' :: 'l' :: rest => some (.null, rest)
  | 't' :: 'r' :: 'u' :: 'e' :: rest => some (.truth true, rest)
  | 'f' :: 'a' :: 'l' :: 's' :: 'e' :: rest => some (.truth false, rest)
  | '"' :: rest => (string? rest).map fun (string, behind) => (.text string, behind)
  | c :: rest =>
    let digits := (c :: rest).takeWhile Char.isDigit
    (natural? digits).map fun value => (.natural value, (c :: rest).dropWhile Char.isDigit)

/-- The marks of a text of at most a given length. -/
def marksWithin : Nat → List Char → Option (List Mark)
  | 0, _ => none
  | length + 1, text =>
    match text.dropWhile isBlank with
    | [] => some []
    | front => do
      let (mark, behind) ← mark? front
      let marks ← marksWithin length behind
      some (mark :: marks)

/-- The marks of a text. -/
def marks? (text : String) : Option (List Mark) :=
  marksWithin (text.toList.length + 1) text.toList

end Options
end CppNames
