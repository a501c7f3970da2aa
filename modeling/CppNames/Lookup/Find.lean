import CppNames.Lookup.Result

namespace CppNames
namespace Table

/-!
# One scope's own names

Of the symbols that share a name in a scope some are hidden, depending on what the name
is looked up for.  Without a particular purpose, objects and functions hide types.
-/

/-- The symbols of a list whose kinds satisfy a test. -/
def ofKind (table : Table) (test : SymbolKind → Bool) (ids : List SymbolId) :
    Outcome (List SymbolId) :=
  ids.filterM fun id => return test (← table.symbol id).kind

/-- The symbols that are not hidden from a lookup. -/
def visible (table : Table) (ids : List SymbolId) (context : LookupContext) :
    Outcome (List SymbolId) :=
  if context.scope then table.ofKind (!·.isValue) ids
  else if context.elaborated then table.ofKind (·.isElaborated) ids
  else if context.type then table.ofKind (·.isTypeName) ids
  else do
    let others ← table.ofKind (!·.isTypeName) ids
    return if others.isEmpty then ids else others

/-- The symbols with a name in a scope itself that a lookup sees. -/
def find (table : Table) (scope : ScopeId) (name : Encoding) (context : LookupContext) :
    Outcome SymbolSet := do
  let named := (← table.scope scope).named name
  return { ids := ← table.visible named context }

end Table
end CppNames
