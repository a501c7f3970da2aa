import CppNames.Table.Basic

namespace CppNames
namespace Table

/-!
# Following links

From a type definition to what it stands for, and from a scope to the scopes around it.
Neither walk is longer than the table is large, unless its links run in a circle.
-/

/-- Follows type definitions for at most a given number of steps. -/
def aliasedWithin (table : Table) : Nat → SymbolId → Outcome SymbolId
  | 0, id => .ok id
  | steps + 1, id => do
    match (← table.symbol id).kind with
    | .typedefName (some next) => if next = id then return id else aliasedWithin table steps next
    | _ => return id

/-- The class, enumeration or template that a chain of type definitions stands for. -/
def aliased (table : Table) (id : SymbolId) : Outcome SymbolId :=
  table.aliasedWithin table.symbols.size id

/-- A scope and the scopes around it, for at most a given number of scopes. -/
def enclosingWithin (table : Table) : Nat → ScopeId → Outcome (List (ScopeId × Scope))
  | 0, _ => .error .endless
  | steps + 1, id => do
    let scope ← table.scope id
    match scope.outer with
    | some outer => return (id, scope) :: (← enclosingWithin table steps outer)
    | none => return [(id, scope)]

/-- A scope and the scopes around it, from the inside to the outside. -/
def enclosing (table : Table) (id : ScopeId) : Outcome (List (ScopeId × Scope)) :=
  table.enclosingWithin (table.scopes.size + 1) id

/-- The names of the namespaces, classes and functions around a scope and of the scope
itself, outermost first. -/
def scopePath (table : Table) (id : ScopeId) : Outcome (List String) := do
  let names := (← table.enclosing id).map (·.2.region.name)
  let texts ← (names.filter (!·.isEmpty)).mapM Encoding.shown
  return texts.reverse

/-- The name of a symbol behind the names of the scopes around it, such as `A::B::x`. -/
def qualifiedName (table : Table) (id : SymbolId) : Outcome String := do
  let symbol ← table.symbol id
  let path ← table.scopePath symbol.scope
  let name ← symbol.nameText
  return "::".intercalate (path ++ [name])

/-- The qualified names of some symbols, for a report. -/
def candidateList (table : Table) (ids : List SymbolId) : Outcome String := do
  return ", ".intercalate (← ids.mapM table.qualifiedName)

end Table
end CppNames
