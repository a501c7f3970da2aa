import CppNames.Text.Span
import CppNames.Diagnostic.Message

namespace CppNames

/-!
# Reported problems

A diagnostic is a filled message with an optional file and span.  It may carry notes
on related places, such as the earlier declaration of a name that is declared again.
A log collects diagnostics in the order in which the passes report them; no pass
stops at a problem.
-/

/-- A reported problem. -/
structure Diagnostic where
  file : Option String
  span : Option Span
  text : String
  code : Nat
  severity : Severity
  related : List Diagnostic
  deriving Repr, Inhabited

namespace Diagnostic

/-- A problem without a place. -/
def make (message : Message) (arguments : List String) : Diagnostic where
  file := none
  span := none
  text := fillTemplate message.template arguments
  code := message.code
  severity := message.severity
  related := []

/-- A problem at a place in a file. -/
def inFile (file : String) (span : Span) (message : Message) (arguments : List String) :
    Diagnostic :=
  { make message arguments with file := some file, span := some span }

/-- The problem with one more related note behind those it has. -/
def withRelated (problem note : Diagnostic) : Diagnostic :=
  { problem with related := problem.related ++ [note] }

/-- Whether the problem is an error. -/
def isError (problem : Diagnostic) : Bool := problem.severity = .error

/-- Whether the problem was made from a message. -/
def isOf (problem : Diagnostic) (message : Message) : Bool := problem.code == message.code

/-- The printed place of the problem, empty without a file.  A span is shown by its
first position. -/
def placeText (problem : Diagnostic) : String :=
  match problem.file, problem.span with
  | none, _ => ""
  | some file, none => file ++ ": "
  | some file, some span => s!"{file}({span.start}): "

/-- One line that tells the place, severity, code and text of the problem. -/
def line (problem : Diagnostic) : String :=
  s!"{problem.placeText}{problem.severity.text} CX{problem.code}: {problem.text}"

/-- Orders absent values before present ones. -/
def absentFirst {α : Type} (order : α → α → Ordering) : Option α → Option α → Ordering
  | none, none => .eq
  | none, some _ => .lt
  | some _, none => .gt
  | some left, some right => order left right

/-- Orders problems by file and then by first position, those without a place first. -/
def order (left right : Diagnostic) : Ordering :=
  (absentFirst compare left.file right.file).then
    (absentFirst compare (left.span.map (·.start)) (right.span.map (·.start)))

end Diagnostic

/-- The problems that one or more passes reported, in order. -/
abbrev Log := List Diagnostic

namespace Log

/-- How many of the problems are errors. -/
def errorCount (log : Log) : Nat := log.countP Diagnostic.isError

/-- Whether any of the problems is an error. -/
def hasErrors (log : Log) : Bool := log.any Diagnostic.isError

/-- How many of the problems were made from a message. -/
def countOf (log : Log) (message : Message) : Nat := log.countP (·.isOf message)

/-- The log ordered by place.  Problems at one place keep their order. -/
def sorted (log : Log) : Log := log.mergeSort fun left right => (left.order right).isLE

theorem hasErrors_iff (log : Log) : log.hasErrors = true ↔ 0 < log.errorCount := by
  simp [hasErrors, errorCount, List.countP_pos_iff]

end Log

end CppNames
