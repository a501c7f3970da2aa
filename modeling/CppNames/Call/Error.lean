import CppNames.Lookup.Result

namespace CppNames

/-!
# Failed calls

A call may fail to choose one function.  Where that depends on something that is known
only later, the failure is no mistake in the source and is not reported.
-/

/-- Why a call chooses no function.  The name is the callee as written. -/
inductive CallError where
  | lookup (error : LookupError)
  | undefined (name : String)
  | notCallable (name : String)
  | noViable (name : String)
  | ambiguous (name : String) (candidates : List SymbolId)
  /-- The callee depends on a template parameter or on an object whose type is not
  known. -/
  | dependent (name : String)
  deriving DecidableEq, Repr

namespace CallError

/-- The error in one sentence. -/
def text : CallError → String
  | .lookup error => error.text
  | .undefined name => "'" ++ name ++ "' is not declared"
  | .notCallable name => "'" ++ name ++ "' is not a function"
  | .noViable name => "no viable function for call to '" ++ name ++ "'"
  | .ambiguous name _ => "call to '" ++ name ++ "' is ambiguous"
  | .dependent name => "call to '" ++ name ++ "' cannot be resolved statically"

/-- The error as a report, if it is worth one. -/
def diagnostic? (error : CallError) (table : Table) (file : String) (span : Option Span) :
    Outcome (Option Diagnostic) := do
  let place (made : Diagnostic) := { made with file := some file, span := span }
  match error with
  | .lookup error => return some (← error.diagnostic table file span)
  | .dependent _ => return none
  | .undefined name => return some (place (.make .cannotFindName [name]))
  | .notCallable name => return some (place (.make .notCallable [name]))
  | .noViable name => return some (place (.make .noViableFunction [name]))
  | .ambiguous name candidates =>
    return some (place (.make .ambiguousCall [name, ← table.candidateList candidates]))

end CallError

end CppNames
