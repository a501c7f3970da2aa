import CppNames.Lookup.Find

namespace CppNames
namespace Table

/-!
# Qualified lookup

A name behind `X::` is looked up in `X` itself.  Where a namespace does not have it, the
namespaces that it nominates are searched, and those that they nominate, until one on
each path has the name; a class is searched through its bases in the same way.  No scope
is searched twice, so the search ends even where the links run in circles.
-/

/-- What a search found so far, and where it was. -/
structure Search where
  found : SymbolSet := {}
  visited : List ScopeId := []

/-- A link from a scope to the scopes that are searched where it lacks a name. -/
abbrev Links := Region → List ScopeId

/-- Searches a scope, and where it lacks the name the scopes that it links to, unless the
scope was searched before.  What is found is added to what was found so far.  The first
argument bounds how many scopes lie on one path. -/
def searchWithin (table : Table) (links : Links) (name : Encoding) (context : LookupContext) :
    Nat → Search → ScopeId → Outcome Search
  | 0, _, _ => .error .endless
  | steps + 1, search, scope =>
    if scope ∈ search.visited then .ok search
    else do
      let visited := scope :: search.visited
      let own ← table.find scope name context
      if own.isEmpty then
        let region := (← table.scope scope).region
        let behind ← (links region).foldlM
          (searchWithin table links name context steps) { visited := visited }
        return ⟨search.found.union behind.found, behind.visited⟩
      else return ⟨search.found.union own, visited⟩

/-- Searches some scopes, one after the other, apart from those visited before. -/
def searchAll (table : Table) (links : Links) (name : Encoding) (context : LookupContext)
    (visited scopes : List ScopeId) : Outcome SymbolSet := do
  let steps := table.scopes.size + 1
  let search ← scopes.foldlM (table.searchWithin links name context steps)
    { visited := visited }
  return search.found

/-- Looks a name up as a member of a scope. -/
def lookupQualified (table : Table) (scope : ScopeId) (name : Encoding)
    (context : LookupContext) : Outcome SymbolSet := do
  let region := (← table.scope scope).region
  match region with
  | .namespaceBody .. | .functionBody .. =>
    let own ← table.find scope name context
    if !own.isEmpty || (context.declaration && name.isSimpleName) then return own
    else table.searchAll Region.nominated name context [scope] region.nominated
  | .classBody .. => table.searchAll Region.bases name context [] [scope]
  | _ => table.find scope name context

end Table
end CppNames
