import CppNames.Lookup.Member

namespace CppNames
namespace Table

/-!
# Unqualified lookup

A name is looked up from the inside to the outside.  A scope that lacks it is left for
the namespaces that it nominates, or a class for its bases, before the scope around it is
searched.  A nominated namespace is searched only once, and only by itself: the search
does not go on outside it.
-/

/-- What a scope has to offer before the scopes around it are searched, and the
namespaces searched so far. -/
structure Local where
  found : SymbolSet
  searched : List ScopeId

/-- The members that a class inherits, searched unless the table leaves bases out. -/
def inherited (table : Table) (scope : ScopeId) (bases : List ScopeId) (name : Encoding)
    (context : LookupContext) : Outcome SymbolSet :=
  if table.searchesBases then table.searchAll Region.bases name context [scope] bases
  else .ok .none

/-- The first nonempty one of two results; the second is computed only if needed. -/
def orElse (first : SymbolSet) (second : Unit → Outcome SymbolSet) : Outcome SymbolSet :=
  if first.isEmpty then second () else .ok first

/-- Looks a name up in a scope and the scopes around it.  The last argument holds the
namespaces that were searched before.  The first argument bounds how many scopes lie on
one path of the search. -/
def unqualifiedWithin (table : Table) (name : Encoding) :
    Nat → LookupContext → ScopeId → List ScopeId → Outcome Local
  | 0, _, _, _ => .error .endless
  | steps + 1, context, id, searched => do
    let scope ← table.scope id
    let own ← table.find id name context
    let through (own : SymbolSet) (searched : List ScopeId) : Outcome Local :=
      if own.isEmpty then
        scope.region.nominated.foldlM (fun (soFar : Local) target =>
          if target ∈ soFar.searched then .ok soFar
          else do
            let there ← unqualifiedWithin table name steps { context with nominated := true }
              target soFar.searched
            return ⟨soFar.found.union there.found, there.searched⟩) ⟨.none, searched⟩
      else .ok ⟨own, searched⟩
    let here ← match scope.region with
      | .namespaceBody .. => through own (id :: searched)
      | .functionBody _ _ parameters _ => do
        let own ← orElse own fun _ =>
          parameters.elim (.ok .none) fun inside => table.find inside name context
        through own searched
      | .block .. => through own searched
      | .classBody _ _ bases => do
        let found ← orElse own fun _ => table.inherited id bases name context
        pure ⟨found, searched⟩
      | .prototype _ | .templateParameters _ => pure ⟨own, searched⟩
    let stays := scope.region.isNamespace &&
      (context.nominated || scope.outer.all (here.searched.contains ·))
    match scope.outer with
    | some outer =>
      if !here.found.isEmpty || stays then return here
      else unqualifiedWithin table name steps context outer here.searched
    | none => return here

/-- A number of scopes that no path of a search exceeds, unless it runs in a circle. -/
def searchBound (table : Table) : Nat := (table.scopes.size + 2) * (table.scopes.size + 2)

/-- Looks a simple name up in a scope and the scopes around it. -/
def lookupUnqualified (table : Table) (scope : ScopeId) (name : Encoding)
    (context : LookupContext) : Outcome SymbolSet := do
  return (← table.unqualifiedWithin name table.searchBound context scope []).found

end Table
end CppNames
