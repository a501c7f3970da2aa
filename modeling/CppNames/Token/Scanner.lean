import CppNames.Diagnostic.Basic
import CppNames.Token.Basic
import CppNames.Token.Piece

namespace CppNames

/-!
# Reading tokens

A scanner stands at a byte position of a text and hands out the tokens behind it one
by one.  Between two tokens it passes over the other pieces and reports those that are
not well formed.  At the end of the text it hands out the end token for ever.
-/

/-- The number of bytes that characters take in UTF-8. -/
def byteLength : List Char → Nat
  | [] => 0
  | c :: rest => c.utf8Size + byteLength rest

/-- A place in a source text, with the problems that were found on the way there. -/
structure Scanner where
  file : String
  cxx : Bool
  lineStart : Bool
  pos : Nat
  rest : List Char
  log : Log
  deriving Repr

namespace Scanner

open Token

/-- A scanner at the front of a text.  Where C++ is not read, the words that only C++
reserves are identifiers. -/
def ofText (file : String) (cxx : Bool) (text : String) : Scanner :=
  ⟨file, cxx, true, 0, text.toList, []⟩

/-- The message for a piece that is not well formed. -/
def problemOf? (role : Role) (text : String) : Option (Message × List String) :=
  match role with
  | .blockComment false => some (.unterminatedComment, [])
  | .invalid => some (.invalidCharacter, [text])
  | .token .stringLiteral false => some (.unterminatedString, [])
  | .token .charLiteral false => some (.unterminatedCharacter, [])
  | _ => none

/-- Reads one piece, given the characters in front of the scanner. -/
def readPiece (scanner : Scanner) (c : Char) (rest : List Char) :
    Option Token × Scanner :=
  let found := nextPiece scanner.cxx scanner.lineStart c rest
  let taken := c :: rest.take found.further
  let text := String.ofList taken
  let stop := scanner.pos + byteLength taken
  let report := (problemOf? found.role text).map fun (message, arguments) =>
    Diagnostic.inFile scanner.file (Span.ofBounds scanner.pos stop) message arguments
  let token := match found.role with
    | .token kind _ => some ⟨kind, text, scanner.pos⟩
    | _ => none
  (token,
    { scanner with
      lineStart := lineStartAfter scanner.lineStart found.role taken
      pos := stop
      rest := rest.drop found.further
      log := scanner.log ++ report.toList })

theorem length_rest_readPiece (scanner : Scanner) (c : Char) (rest : List Char) :
    (scanner.readPiece c rest).2.rest.length < rest.length + 1 := by
  simp only [readPiece, List.length_drop]
  omega

/-- Reads the next token. -/
def scan (scanner : Scanner) : Token × Scanner :=
  match _read : scanner.rest with
  | [] => (Token.endAt scanner.pos, scanner)
  | c :: rest =>
    match _step : scanner.readPiece c rest with
    | (some token, next) => (token, next)
    | (none, next) => next.scan
  termination_by scanner.rest.length
  decreasing_by
    have shorter := length_rest_readPiece scanner c rest
    rw [_step] at shorter
    simpa [_read] using shorter

/-- A scanner in front of more text is behind some of it after one token. -/
theorem length_rest_scan (scanner : Scanner) (more : scanner.rest ≠ []) :
    scanner.scan.2.rest.length < scanner.rest.length := by
  fun_induction scan scanner with
  | case1 scanner read => exact absurd read more
  | case2 scanner c rest read token next step =>
    have shorter := length_rest_readPiece scanner c rest
    rw [step] at shorter
    simpa [read] using shorter
  | case3 scanner c rest read next step ih =>
    have shorter := length_rest_readPiece scanner c rest
    rw [step] at shorter
    by_cases done : next.rest = []
    · unfold scan
      simp only [read, List.length_cons]
      split
      · simp_all
      · simp_all
    · have := ih done
      simp only [read, List.length_cons]
      simp only at shorter
      omega

/-- The tokens in front of the scanner up to the end token, and the scanner behind
them. -/
def scanAll (scanner : Scanner) : List Token × Scanner :=
  if more : scanner.rest = [] then ([Token.endAt scanner.pos], scanner)
  else
    have := length_rest_scan scanner more
    let read := scanner.scan
    if read.1.kind = .endOfFile then ([read.1], read.2)
    else
      let behind := read.2.scanAll
      (read.1 :: behind.1, behind.2)
  termination_by scanner.rest.length

end Scanner

/-- The tokens of a text, the end token last, and the problems found while reading
them. -/
def tokenize (file : String) (cxx : Bool) (text : String) : List Token × Log :=
  let (tokens, scanner) := (Scanner.ofText file cxx text).scanAll
  (tokens, scanner.log)

end CppNames
