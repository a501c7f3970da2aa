import CppNames.Text.IdentifierCharacter
import CppNames.Token.Kind

namespace CppNames
namespace Token

/-!
# Pieces of a source text

A source text is cut into pieces: tokens, and what lies between them.  A piece is
decided by the characters in front of the reader and by one bit of context, whether
only blank pieces were read since the line began, since a `#` opens a directive there
alone.  Every recogniser below answers how many further characters belong to the
piece whose first character has been seen, so a piece is never empty, and pieces
and what is left of the text always add up to the text.
-/

/-- What a piece of source text is.  Comments and quoted literals may lack their
closing mark. -/
inductive Role where
  | newline
  | blank
  | lineComment
  | blockComment (closed : Bool)
  | directive
  | splice
  | invalid
  | token (kind : Kind) (closed : Bool)
  deriving DecidableEq, Repr, Inhabited

/-- What a recogniser found: the role of a piece and how many characters follow its
first one. -/
structure Found where
  role : Role
  further : Nat
  deriving DecidableEq, Repr, Inhabited

/-! ## What lies between tokens -/

/-- The blank characters other than the newline. -/
def isBlank (c : Char) : Bool :=
  c == ' ' || c == '\t' || c == '\r' || c == '\x0b' || c == '\x0c'

/-- The extent of a block comment behind its opening mark, and whether it is closed. -/
def commentExtent : List Char → Bool × Nat
  | [] => (false, 0)
  | '*' :: '/' :: _ => (true, 2)
  | _ :: rest =>
    let (closed, count) := commentExtent rest
    (closed, count + 1)

/-- The extent of a directive: up to and including the first newline that no backslash
precedes.  Carriage returns between the backslash and the newline do not count.  The
flag tells whether the line read so far ends in a backslash. -/
def directiveExtent (continued : Bool) : List Char → Nat
  | [] => 0
  | '\n' :: rest => if continued then directiveExtent false rest + 1 else 1
  | '\r' :: rest => directiveExtent continued rest + 1
  | c :: rest => directiveExtent (c == '\\') rest + 1

/-! ## Literals, words and punctuators -/

/-- The extent of a quoted literal behind its opening quote, and whether it is closed.
A backslash takes the next character with it, even a newline; otherwise the literal
ends unclosed before a newline. -/
def quotedExtent (quote : Char) : List Char → Bool × Nat
  | [] => (false, 0)
  | '\\' :: [] => (false, 1)
  | '\\' :: _ :: rest =>
    let (closed, count) := quotedExtent quote rest
    (closed, count + 2)
  | c :: rest =>
    if c = quote then (true, 1)
    else if c = '\n' then (false, 0)
    else
      let (closed, count) := quotedExtent quote rest
      (closed, count + 1)

/-- How many characters at the front of a list satisfy a test. -/
def runLength (test : Char → Bool) (text : List Char) : Nat := (text.takeWhile test).length

/-- The digits of base sixteen. -/
def isHexDigit (c : Char) : Bool :=
  c.isDigit || ('a' ≤ c && c ≤ 'f') || ('A' ≤ c && c ≤ 'F')

/-- The letters that may follow the digits of a number. -/
def isNumberSuffix (c : Char) : Bool := "uUlLfF".toList.contains c

/-- The extent of an exponent: a letter `e`, an optional sign and at least one digit;
zero without them. -/
def exponentExtent : List Char → Nat
  | [] => 0
  | e :: rest =>
    if e == 'e' || e == 'E' then
      let sign := match rest with
        | s :: _ => if s == '+' || s == '-' then 1 else 0
        | [] => 0
      let digits := runLength Char.isDigit (rest.drop sign)
      if digits = 0 then 0 else 1 + sign + digits
    else 0

/-- The extent of a fraction: a point and any digits behind it; zero without a point. -/
def fractionExtent : List Char → Nat
  | '.' :: rest => 1 + runLength Char.isDigit rest
  | _ => 0

/-- The extent of the digits of a number, and whether it is a floating number. -/
def digitsExtent (text : List Char) : Bool × Nat :=
  match text with
  | '0' :: 'x' :: rest => (false, 2 + runLength isHexDigit rest)
  | '0' :: 'X' :: rest => (false, 2 + runLength isHexDigit rest)
  | _ =>
    let whole := runLength Char.isDigit text
    let fraction := fractionExtent (text.drop whole)
    let exponent := exponentExtent (text.drop (whole + fraction))
    (fraction != 0 || exponent != 0, whole + fraction + exponent)

/-- The number at the front of a text. -/
def number (text : List Char) : Found :=
  let (floating, digits) := digitsExtent text
  let suffix := runLength isNumberSuffix (text.drop digits)
  ⟨.token (if floating then .floatLiteral else .integerLiteral) true, digits + suffix - 1⟩

/-- The kind of the literal that a quote opens. -/
def literalKind (quote : Char) : Kind :=
  if quote = '"' then .stringLiteral else .charLiteral

/-- The quoted literal whose opening quote has been read, behind a word of a given
length. -/
def quotedLiteral (wordLength : Nat) (quote : Char) (rest : List Char) : Found :=
  let (closed, count) := quotedExtent quote rest
  ⟨.token (literalKind quote) closed, wordLength + count⟩

/-- The words that a quote may follow directly to form one literal. -/
def isLiteralWord (word : String) : Bool := ["L", "u", "U", "u8"].contains word

/-- The keyword or identifier at the front of a text, or the literal that it opens. -/
def word (cxx : Bool) (text : List Char) : Found :=
  let letters := text.takeWhile isIdentifierContinue
  let spelled := String.ofList letters
  let plain : Found := ⟨.token (Kind.ofWord cxx spelled) true, letters.length - 1⟩
  if isLiteralWord spelled then
    match text.drop letters.length with
    | '"' :: rest => quotedLiteral letters.length '"' rest
    | '\'' :: rest => quotedLiteral letters.length '\'' rest
    | _ => plain
  else plain

/-- The longer of two table entries, the first if they are equally long. -/
def longer (left right : String × Kind) : String × Kind :=
  if left.1.length < right.1.length then right else left

/-- The longest punctuator at the front of a text. -/
def punctuator? (text : List Char) : Option (String × Kind) :=
  (punctuators.filter fun entry => entry.1.toList.isPrefixOf text).foldl
    (fun best entry => some (best.elim entry (longer · entry))) none

/-! ## The next piece -/

/-- The token at the front of a text, or the invalid character that stands there. -/
def nextToken (cxx : Bool) (c : Char) (rest : List Char) : Found :=
  if c.isDigit || (c == '.' && rest.head?.any Char.isDigit) then number (c :: rest)
  else if c == '"' || c == '\'' then quotedLiteral 0 c rest
  else if isIdentifierStart c then word cxx (c :: rest)
  else
    match punctuator? (c :: rest) with
    | some (spelled, kind) => ⟨.token kind true, spelled.length - 1⟩
    | none => ⟨.invalid, 0⟩

/-- The piece at the front of a text.  The flag `lineStart` tells whether only blank
pieces were read since the line began. -/
def nextPiece (cxx lineStart : Bool) (c : Char) (rest : List Char) : Found :=
  if c == '\n' then ⟨.newline, 0⟩
  else if isBlank c then ⟨.blank, 0⟩
  else
    match c, rest with
    | '/', '/' :: _ => ⟨.lineComment, runLength (· != '\n') rest⟩
    | '/', '*' :: body =>
      let (closed, count) := commentExtent body
      ⟨.blockComment closed, count + 1⟩
    | '#', _ => if lineStart then ⟨.directive, directiveExtent false rest⟩ else ⟨.invalid, 0⟩
    | '\\', next :: _ =>
      if next == '\n' || next == '\r' then ⟨.splice, 0⟩ else ⟨.invalid, 0⟩
    | _, _ => nextToken cxx c rest

/-- Whether a line has only blank pieces up to the end of a piece.  A newline, a
directive and a comment that holds a newline begin a line; other blank pieces change
nothing. -/
def lineStartAfter (lineStart : Bool) (role : Role) (text : List Char) : Bool :=
  match role with
  | .newline | .directive => true
  | .blockComment closed => lineStart || (closed && text.contains '\n')
  | .blank | .lineComment | .splice => lineStart
  | .invalid | .token _ _ => false

end Token
end CppNames
