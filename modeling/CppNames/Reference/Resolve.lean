import CppNames.Reference.Basic
import CppNames.Typing.Expression

namespace CppNames
namespace Reference

/-!
# Resolving one use

A use of a name is looked up where it stands.  A name that finds nothing, or several
declarations that are not all functions, is reported.  For a callee the call chooses one
function; where it cannot, the name keeps the meaning that lookup gives it.
-/

/-- A name as it is used in a source text. -/
structure Use where
  name : Encoding
  /-- The name as written. -/
  text : String
  span : Option Span
  deriving DecidableEq, Repr

namespace Use

/-- The use of a name by an identifier. -/
def ofToken (name : Encoding) (token : Token) : Use := ⟨name, token.text, some token.span⟩

/-- The use of a name by a node. -/
def ofNode (name : Encoding) (node : Node) : Outcome Use :=
  return ⟨name, node.joined, ← node.place⟩

/-- A report on a use. -/
def report (use : Use) (file : String) (message : Message) (arguments : List String) :
    Diagnostic :=
  { Diagnostic.make message arguments with file := some file, span := use.span }

/-- The findings of one use. -/
def findings (use : Use) (isCall : Bool) (resolution : Resolution) (log : Log) : Findings :=
  ⟨[⟨use.span, use.text, resolution, isCall⟩], log⟩

end Use

/-- What a name means that cannot be looked up. -/
def ofLookupError : LookupError → Resolution
  | .ambiguous _ candidates => .ambiguous candidates
  | .undefined _ | .notScope _ => .unresolved

/-- The reports on what a use means. -/
def reports (table : Table) (file : String) (use : Use) : Resolution → Outcome Log
  | .unresolved => .ok [use.report file .cannotFindName [use.text]]
  | .ambiguous candidates => do
    return [use.report file .ambiguousReference [use.text, ← table.candidateList candidates]]
  | _ => .ok []

/-- Resolves a use by lookup alone. -/
def ofUse (site : Site) (file : String) (context : LookupContext) (use : Use) :
    Outcome Findings := do
  match ← site.lookup use.name context with
  | .ok found =>
    let resolution ← found.resolution site.table
    return use.findings false resolution (← reports site.table file use resolution)
  | .error error =>
    let log := [← error.diagnostic site.table file use.span]
    return use.findings false (ofLookupError error) log

/-- What lookup alone makes of the callee of a call that fails. -/
def ofFailedCall (site : Site) (use : Use) : Outcome Resolution := do
  match ← site.lookup use.name {} with
  | .ok found => found.resolution site.table
  | .error _ => return .unresolved

/-- What the callee of a call means where the call chooses nothing. -/
def ofCallError (site : Site) (use : Use) : CallError → Outcome Resolution
  | .lookup (.ambiguous _ candidates) | .ambiguous _ candidates => .ok (.ambiguous candidates)
  | .dependent _ => .ok .dependent
  | _ => ofFailedCall site use

/-- Resolves the callee of a call through the call. -/
def ofCall (site : Site) (file : String) (call : Node) (use : Use) : Outcome Findings := do
  match ← resolveCall site call with
  | .ok id => return use.findings true (.resolved id) []
  | .error error =>
    let log := (← error.diagnostic? site.table file use.span).toList
    return use.findings true (← ofCallError site use error) log

end Reference
end CppNames
