import CppNames.Lookup.Unqualified

namespace CppNames
namespace Table

/-!
# Names with several components

The components of a qualified name are looked up from the left to the right.  The first
one is looked up from where the name stands, or is the global scope; each further one is
looked up as a member of the scope that the components before it denote.  Every component
but the last has to denote one namespace or class.
-/

/-- Where a component in front of `::` leads: to a scope, or nowhere yet, because it
depends on a template parameter. -/
abbrev Denoted := Option ScopeId

/-- Where one symbol leads. -/
def scopeOfSymbol (table : Table) (name : String) (id : SymbolId) :
    Outcome (Except LookupError Denoted) := do
  let target ← table.symbol (← table.aliased id)
  match target.kind with
  | .typeParameter => return .ok none
  | .namespaceName | .classType _ | .classTemplate _ =>
    match target.defines with
    | some scope => return .ok (some scope)
    | none => return .error (.notScope name)
  | _ => return .error (.notScope name)

/-- Where a component leads, given the symbols that it found. -/
def scopeOf (table : Table) (found : SymbolSet) (component : Encoding) :
    Outcome (Except LookupError Denoted) := do
  let name ← component.shown
  if found.dependent then return .ok none
  else
    match found.ids with
    | [] => return .error (.undefined name)
    | [id] => table.scopeOfSymbol name id
    | candidates => return .error (.ambiguous name candidates)

/-- Where further components lead from a scope. -/
def descend (table : Table) (scope : ScopeId) :
    List Encoding → Outcome (Except LookupError Denoted)
  | [] => .ok (.ok (some scope))
  | component :: rest => do
    let key ← component.lookupKey
    let found ← table.lookupQualified scope key { scope := true }
    match ← table.scopeOf found component with
    | .ok (some next) => descend table next rest
    | other => return other

/-- Where the components in front of a last one lead. -/
def denoted (table : Table) (scope : ScopeId) :
    List Encoding → Outcome (Except LookupError Denoted)
  | [] => .ok (.ok (some scope))
  | component :: rest => do
    if component.isGlobalScope then table.descend global rest
    else
      let key ← component.lookupKey
      let found ← table.lookupUnqualified scope key { scope := true }
      match ← table.scopeOf found component with
      | .ok (some next) => table.descend next rest
      | other => return other

/-- Looks up a simple or qualified name from a scope.  Nothing is found where the last
component is not there; a component before it that leads nowhere is an error. -/
def lookup (table : Table) (name : Encoding) (scope : ScopeId) (context : LookupContext) :
    Outcome (Except LookupError SymbolSet) := do
  if name.isQualified then
    let components ← name.components
    match components.getLast? with
    | none => return .ok .none
    | some last =>
      match ← table.denoted scope components.dropLast with
      | .error error => return .error error
      | .ok none => return .ok .ofParameter
      | .ok (some target) =>
        return .ok (← table.lookupQualified target (← last.lookupKey) context)
  else return .ok (← table.lookupUnqualified scope (← name.lookupKey) context)

/-- The scope that a name denotes in front of `::`, as the base of a class, or as the
target of a using-directive; nothing if it depends on a template parameter. -/
def lookupScope (table : Table) (name : Encoding) (scope : ScopeId) :
    Outcome (Except LookupError Denoted) := do
  if name.isGlobalScope then return .ok (some global)
  else
    match ← table.lookup name scope { scope := true } with
    | .error error => return .error error
    | .ok found => table.scopeOf found (← name.lastComponent)

end Table
end CppNames
