import CppNames.Session.Index
import CppNames.Unit.Analyze

namespace CppNames

/-!
# Sessions

A session analyses several source texts on their own and then links them.
-/

/-- A source text whose analysis stopped at a malformed construct. -/
structure Failure where
  file : String
  error : ShapeError
  deriving DecidableEq, Repr

/-- The failure in one sentence. -/
def Failure.message (failure : Failure) : String := failure.file ++ ": " ++ failure.error.text

/-- What analysing several source texts gives. -/
structure Session where
  /-- The reports on the texts that were analysed, in the order of the texts. -/
  reports : List Report
  failures : List Failure
  index : Index
  links : List Link
  /-- The problems of all texts by file and position. -/
  log : Log

namespace Session

/-- The report on one source text, or its failure. -/
def reportOn (options : Options) (source : Source) : Outcome (Except Failure Report) :=
  match source.analyze options with
  | .ok analysis => .ok (.ok analysis.report)
  | .error (.shape error) => .ok (.error ⟨source.file, error⟩)
  | .error (.fault fault) => .error fault

/-- Links the reports of source texts. -/
def ofResults (results : List (Except Failure Report)) : Session :=
  let reports := results.filterMap Except.toOption
  let failures := results.filterMap fun result =>
    match result with
    | .ok _ => none
    | .error failure => some failure
  let index := Index.ofReports reports
  { reports := reports
    failures := failures
    index := index
    links := index.links reports
    log := Log.sorted (reports.flatMap (·.log)) }

/-- Analyses some source texts and links them. -/
def run (options : Options) (sources : List Source) : Outcome Session := do
  return ofResults (← sources.mapM (reportOn options))

/-- The first report on a file. -/
def report? (session : Session) (file : String) : Option Report :=
  session.reports.find? (·.file == file)

end Session

end CppNames
