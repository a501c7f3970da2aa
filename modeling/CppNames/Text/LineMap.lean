import CppNames.Text.Span

namespace CppNames

/-!
# Lines and columns

A line map remembers where the lines of a text start.  A line starts at position
zero and behind every newline, so the line of a position is decided by counting the
starts that do not lie behind it.  Lines and columns count from zero; only the
written form of a place counts from one.
-/

/-- A line and a byte column, both counted from zero. -/
structure LineColumn where
  line : Nat
  column : Nat
  deriving DecidableEq, Repr

/-- The place as a compiler prints it, with both numbers counted from one.  Neither may
be greater than the last position. -/
def LineColumn.text? (place : LineColumn) : Option String :=
  if isPosition (place.line + 1) && isPosition (place.column + 1) then
    some s!"{place.line + 1}:{place.column + 1}"
  else none

/-- The starts behind the newlines of a text whose first character is at
`position`, in increasing order. -/
def startsBehindNewlines (position : Nat) : List Char → List Nat
  | [] => []
  | c :: rest =>
    let next := position + c.utf8Size
    if c = '\n' then next :: startsBehindNewlines next rest
    else startsBehindNewlines next rest

/-- The positions at which lines start, the first line at position zero. -/
structure LineMap where
  laterStarts : List Nat
  deriving DecidableEq, Repr

namespace LineMap

/-- The line map of a text. -/
def ofText (text : String) : LineMap := ⟨startsBehindNewlines 0 text.toList⟩

/-- The number of lines; a text without a newline has one. -/
def lineCount (lines : LineMap) : Nat := lines.laterStarts.length + 1

/-- The line that holds a position.  A position past the end of the text belongs to
the last line. -/
def lineOf (lines : LineMap) (position : Nat) : Nat :=
  lines.laterStarts.countP (· ≤ position)

/-- The position at which a line starts; line zero starts at position zero. -/
def startOf (lines : LineMap) : Nat → Nat
  | 0 => 0
  | line + 1 => lines.laterStarts.getD line 0

/-- The line of a position and its distance from the start of that line. -/
def lineColumnOf (lines : LineMap) (position : Nat) : LineColumn :=
  let line := lines.lineOf position
  ⟨line, position - lines.startOf line⟩

end LineMap

end CppNames
