import CppNames.Table.Path

namespace CppNames
namespace Table

/-!
# Tables as text

Each scope is shown by a line of its own, followed by lines for what it nominates, for
its base classes, and for its symbols in the order of their names.
-/

/-- The type of a symbol as shown behind its kind; types are not shown behind types. -/
def typeNote (symbol : Symbol) : Outcome String := do
  if symbol.type.isEmpty || symbol.isTypeName then return ""
  else return " `" ++ (← symbol.type.shown) ++ "`"

/-- The value of a constant as shown behind its type. -/
def valueNote (symbol : Symbol) : String :=
  match symbol.kind.value? with
  | some value => " = " ++ toString value.toInt
  | none => ""

/-- Where a symbol comes from, if not from the scope that shows it. -/
def originNote (id : ScopeId) (symbol : Symbol) : String :=
  if symbol.scope = id then "" else " (from " ++ symbol.scope.text ++ ")"

/-- The line of a symbol that has a name in a scope. -/
def symbolLine (table : Table) (id : ScopeId) (name : Encoding) (symbolId : SymbolId) :
    Outcome String := do
  let symbol ← table.symbol symbolId
  let shown ← name.shown
  let type ← typeNote symbol
  return "  " ++ shown ++ ": " ++ symbol.kind.words ++ type ++ valueNote symbol ++
    originNote id symbol ++ "\n"

/-- The lines of the symbols that share a name. -/
def bindingLines (table : Table) (id : ScopeId) (binding : Binding) : Outcome String := do
  return String.join (← binding.symbols.mapM (table.symbolLine id binding.name))

/-- The line of a scope that another one refers to. -/
def linkLine (table : Table) (word : String) (target : ScopeId) : Outcome String := do
  let shown ← (← table.scope target).words
  return "  " ++ word ++ " " ++ shown ++ "\n"

/-- The first line of a scope. -/
def headLine (id : ScopeId) (scope : Scope) : Outcome String := do
  let outer := scope.outer.elim "" fun outer => " (in " ++ outer.text ++ ")"
  return id.text ++ " " ++ (← scope.words) ++ outer ++ "\n"

/-- The lines of a scope. -/
def scopeLines (table : Table) (id : ScopeId) : Outcome String := do
  let scope ← table.scope id
  let first ← headLine id scope
  let nominated ← scope.region.nominated.mapM (table.linkLine "using")
  let bases ← scope.region.bases.mapM (table.linkLine "base")
  let bindings ← scope.bindings.mapM (table.bindingLines id)
  return first ++ String.join (nominated ++ bases ++ bindings)

/-- A scope and the scopes around it as text. -/
def dump (table : Table) (id : ScopeId) : Outcome String := do
  let scopes ← table.enclosing id
  return String.join (← scopes.mapM fun (scope, _) => table.scopeLines scope)

/-- All scopes as text, in the order of their creation. -/
def dumpAll (table : Table) : Outcome String := do
  return String.join (← table.scopeIds.mapM table.scopeLines)

end Table
end CppNames
