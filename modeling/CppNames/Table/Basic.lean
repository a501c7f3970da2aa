import CppNames.Table.Scope

namespace CppNames

/-!
# Symbol tables

A symbol table holds all scopes and all symbols of a source text.  Neither is ever
removed, so an index stays good.  Scope zero is the global namespace.  The table also
remembers which scope was created for which node, so that binding a tree again finds its
scopes again.
-/

/-- The scopes and symbols of a source text. -/
structure Table where
  scopes : Array Scope
  symbols : Array Symbol
  /-- The scopes of nodes; of several for one node the first counts. -/
  nodeScopes : List (Tree.NodeId × ScopeId)
  /-- Whether a lookup from inside a class searches its base classes. -/
  searchesBases : Bool
  deriving Repr

namespace Table

/-- The global namespace. -/
def global : ScopeId := ⟨0⟩

/-- The table of a source text without declarations. -/
def initial : Table where
  scopes := #[.ofRegion (.namespaceBody .empty [] []) none]
  symbols := #[]
  nodeScopes := []
  searchesBases := true

/-! ## Access -/

/-- The scope at an index. -/
def scope (table : Table) (id : ScopeId) : Outcome Scope :=
  match table.scopes[id.index]? with
  | some scope => .ok scope
  | none => .error .dangling

/-- The symbol at an index. -/
def symbol (table : Table) (id : SymbolId) : Outcome Symbol :=
  match table.symbols[id.index]? with
  | some symbol => .ok symbol
  | none => .error .dangling

/-- The indices of all scopes. -/
def scopeIds (table : Table) : List ScopeId := (List.range table.scopes.size).map ScopeId.mk

/-- The indices of all symbols. -/
def symbolIds (table : Table) : List SymbolId :=
  (List.range table.symbols.size).map SymbolId.mk

/-- The scope that was created for a node. -/
def scopeOfNode? (table : Table) (node : Tree.NodeId) : Option ScopeId :=
  (table.nodeScopes.find? (·.1 == node)).map (·.2)

/-! ## Change -/

/-- The table with the scope at an index changed. -/
def modifyScope (table : Table) (id : ScopeId) (change : Scope → Scope) : Table :=
  { table with scopes := table.scopes.modify id.index change }

/-- The table with the symbol at an index changed. -/
def modifySymbol (table : Table) (id : SymbolId) (change : Symbol → Symbol) : Table :=
  { table with symbols := table.symbols.modify id.index change }

/-- The table in which a node has a scope. -/
def setNodeScope (table : Table) (node : Tree.NodeId) (scope : ScopeId) : Table :=
  { table with nodeScopes := (node, scope) :: table.nodeScopes }

/-- Adds a scope inside another one, and notes it for a node.  The scope is there even
if the other one is not, and then it has no place. -/
def createScope (table : Table) (region : Region) (outer : Option ScopeId)
    (node : Option Tree.NodeId) : Table × Outcome ScopeId :=
  let id : ScopeId := ⟨table.scopes.size⟩
  let entered := { table with scopes := table.scopes.push (.ofRegion region outer) }
  let placed := outer.elim entered fun owner =>
    entered.modifyScope owner fun scope => { scope with nested := scope.nested ++ [id] }
  let noted := node.elim placed fun node => placed.setNodeScope node id
  if outer.all (·.index < entered.scopes.size) then (noted, .ok id)
  else (entered, .error .dangling)

/-- Adds a symbol under its name in a scope, whatever else has that name.  The symbol is
there even if the scope is not, and then it has no name. -/
def addSymbol (table : Table) (scope : ScopeId) (symbol : Symbol) : Table × Outcome SymbolId :=
  let id : SymbolId := ⟨table.symbols.size⟩
  let entered := { table with symbols := table.symbols.push symbol }
  if scope.index < table.scopes.size then
    (entered.modifyScope scope (·.bind symbol.name id), .ok id)
  else (entered, .error .dangling)

/-- Makes a symbol visible under a name in a scope, as a using-declaration does.  The
answer tells whether it was not visible there before. -/
def makeVisible (table : Table) (scope : ScopeId) (name : Encoding) (id : SymbolId) :
    Outcome (Table × Bool) := do
  let found ← table.scope scope
  return (table.modifyScope scope (·.bind name id), !found.binds name id)

/-- Records that a using-directive in a scope nominates another one.  The answer tells
whether the scope can have using-directives. -/
def addNominated (table : Table) (scope target : ScopeId) : Outcome (Table × Bool) := do
  let found ← table.scope scope
  match found.region.nominate? target with
  | some region => return (table.modifyScope scope ({ · with region := region }), true)
  | none => return (table, false)

/-- Records a direct base of a class.  The answer tells whether it is a new one; a class
is no base of itself. -/
def addBase (table : Table) (scope base : ScopeId) : Outcome (Table × Bool) := do
  if scope = base then return (table, false)
  else
    let found ← table.scope scope
    match found.region.withBase? base with
    | some region => return (table.modifyScope scope ({ · with region := region }), true)
    | none => return (table, false)

/-- Records one more node that opens a namespace. -/
def addFragment (table : Table) (scope : ScopeId) (node : Tree.NodeId) : Table :=
  table.modifyScope scope fun found => { found with region := found.region.withFragment node }

/-- Moves a scope into another one. -/
def reparent (table : Table) (scope outer : ScopeId) : Outcome Table := do
  let found ← table.scope scope
  if found.outer = some outer ∨ scope = outer then return table
  else
    let left := found.outer.elim table fun previous =>
      table.modifyScope previous fun owner =>
        { owner with nested := owner.nested.filter (· ≠ scope) }
    let moved := left.modifyScope scope ({ · with outer := some outer })
    return moved.modifyScope outer fun owner => { owner with nested := owner.nested ++ [scope] }

end Table

end CppNames
