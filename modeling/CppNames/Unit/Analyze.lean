import CppNames.Binding.Bind
import CppNames.Grammar.Parse
import CppNames.Options.Basic
import CppNames.Reference.Walk
import CppNames.Unit.Report

namespace CppNames

/-!
# Analysing a source text

A source text is parsed, its names are bound, and then their uses are found.  Problems
that a step reports do not keep the next step from running.
-/

/-- A source text with the name of its file. -/
structure Source where
  file : String
  text : String
  deriving DecidableEq, Repr

/-- Why a source text cannot be had: its file cannot be read. -/
structure LoadError where
  path : String
  deriving DecidableEq, Repr

/-- The error in one sentence. -/
def LoadError.message (error : LoadError) : String := "cannot read '" ++ error.path ++ "'"

/-- The source text of a file, given what the file holds, which is nothing if it cannot
be read. -/
def Source.ofFile (path : String) (content : Option String) : Except LoadError Source :=
  match content with
  | none => .error ⟨path⟩
  | some text => .ok ⟨path, text⟩

/-- Everything that analysing a source text gives. -/
structure Analysis where
  tree : Node
  table : Table
  references : List Reference
  report : Report

/-- Why parsing has no answer. -/
def Grammar.Stop.fault : Grammar.Stop → Fault
  | .flaw .overrun => .overrun
  | .overflow => .overflow
  | _ => .endless

namespace Source

/-- The options for parsing a source text. -/
def parseOptions (options : Options) : ParseOptions := ⟨options.isCxx, options.maxNestingDepth⟩

/-- The table of a source text before anything is bound. -/
def emptyTable (options : Options) : Table :=
  { Table.initial with searchesBases := options.searchBaseClasses }

/-- Binds the names of a tree and finds their uses. -/
def resolved (source : Source) (options : Options) (tree : Node) :
    Except PassError (Table × Findings) := do
  let (bound, outcome) := bind source.file
    ⟨options.reportMemberAccess, options.extendedConstantFolding⟩ tree ⟨emptyTable options, []⟩
  let log ← outcome
  let found ← findReferences
    ⟨bound.table, bound.annotations, source.file, options.resolveCalls⟩ tree
  return (bound.table, { found with log := log ++ found.log })

/-- Analyses a source text. -/
def analyze (source : Source) (options : Options) : Except PassError Analysis := do
  let parsed ← (parse source.file source.text (parseOptions options)).mapError
    fun stop => .fault stop.fault
  let (table, found) ← if options.bindsNames then source.resolved options parsed.tree
    else pure (emptyTable options, {})
  let declarations ← table.declarations.mapError .fault
  return {
    tree := parsed.tree
    table := table
    references := found.references
    report := {
      file := source.file
      log := (parsed.log ++ found.log).sorted
      misfits := parsed.errors
      declarations := declarations
      unresolved := Report.unresolvedAmong found.references
      referenceCount := found.references.length } }

end Source

end CppNames
