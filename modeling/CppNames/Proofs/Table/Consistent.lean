import CppNames.Proofs.Table.Growth
import Mathlib.Data.List.Count

namespace CppNames

/-!
# Consistent tables

The parts of a table refer to one another by indices, and most relations are kept twice: a scope
knows the scope around it and is listed there, a symbol knows its scope and is bound there.  A
table is *consistent* if every index leads somewhere, both sides of a relation agree, no list
repeats a member, and indices lead to scopes of the kind that is expected of them.

What is asked of one scope or one symbol only speaks of things that stay as a table grows.  So an
operation has to be looked at only for what it changes itself.  Nesting is different, since it
relates two scopes; it has an argument of its own for the two operations that touch it.
-/

/-- The shape of the scope that a symbol of a family has, where it has one. -/
def SymbolKind.Family.body? : SymbolKind.Family → Option Region.Shape
  | .namespaceName => some .namespaceBody
  | .classType | .classTemplate => some .classBody
  | .function | .functionTemplate => some .functionBody
  | _ => none

/-- A scope whose names and links are in order. -/
structure Scope.ConsistentIn (table : Table) (id : ScopeId) (scope : Scope) : Prop where
  names : (scope.bindings.map (·.name)).Nodup
  symbols : ∀ binding ∈ scope.bindings,
    binding.symbols.Nodup ∧ ∀ symbol ∈ binding.symbols, table.HasSymbol symbol
  nominated : scope.region.nominated.Nodup ∧
    ∀ target ∈ scope.region.nominated, table.HasShape target .namespaceBody
  bases : scope.region.bases.Nodup ∧
    ∀ base ∈ scope.region.bases, base ≠ id ∧ table.HasShape base .classBody
  parameters : ∀ inside ∈ scope.region.parameters?, table.HasScope inside

/-- A symbol that is bound under its own name in its scope, stands for a symbol that is there if
it is a type definition, and has no scope but one of the right shape. -/
structure Symbol.ConsistentIn (table : Table) (id : SymbolId) (symbol : Symbol) : Prop where
  bound : ∃ scope, table.scope symbol.scope = .ok scope ∧ id ∈ scope.named symbol.name
  aliased : ∀ target, symbol.kind = .typedefName (some target) → table.HasSymbol target
  defines : ∀ scope, symbol.defines = some scope →
    ∃ shape, symbol.kind.family.body? = some shape ∧ table.HasShape scope shape

namespace Table

/-- A scope is listed once in the scope around it, and in no other. -/
structure Nests (table : Table) : Prop where
  outer : ∀ id scope outer, table.scope id = .ok scope → scope.outer = some outer →
    table.HasScope outer
  nested : ∀ id scope, table.scope id = .ok scope → ∀ inner ∈ scope.nested, table.HasScope inner
  once : ∀ outer around inner inside, table.scope outer = .ok around →
    table.scope inner = .ok inside →
    around.nested.count inner = if inside.outer = some outer then 1 else 0

/-- A table whose parts agree. -/
structure Consistent (table : Table) : Prop where
  scopes : ∀ id scope, table.scope id = .ok scope → scope.ConsistentIn table id
  symbols : ∀ id symbol, table.symbol id = .ok symbol → symbol.ConsistentIn table id
  nests : table.Nests
  notes : ∀ note ∈ table.nodeScopes, table.HasScope note.2

end Table

section

variable {table before after : Table}

theorem Scope.ConsistentIn.grows {id : ScopeId} {scope : Scope}
    (consistent : scope.ConsistentIn before id) (grows : before.Grows after) :
    scope.ConsistentIn after id where
  names := consistent.names
  symbols binding member :=
    ⟨(consistent.symbols binding member).1,
      fun symbol among => grows.hasSymbol ((consistent.symbols binding member).2 symbol among)⟩
  nominated :=
    ⟨consistent.nominated.1,
      fun target member => grows.hasShape (consistent.nominated.2 target member)⟩
  bases :=
    ⟨consistent.bases.1, fun base member =>
      ⟨(consistent.bases.2 base member).1, grows.hasShape (consistent.bases.2 base member).2⟩⟩
  parameters inside member := grows.hasScope (consistent.parameters inside member)

theorem Symbol.ConsistentIn.grows {id : SymbolId} {symbol : Symbol}
    (consistent : symbol.ConsistentIn before id) (grows : before.Grows after) :
    symbol.ConsistentIn after id where
  bound := by
    rcases consistent.bound with ⟨scope, read, member⟩
    rcases grows.scope _ scope read with ⟨later, readLater, _, names⟩
    exact ⟨later, readLater, (names symbol.name).subset member⟩
  aliased target same := grows.hasSymbol (consistent.aliased target same)
  defines scope same := by
    rcases consistent.defines scope same with ⟨shape, body, has⟩
    exact ⟨shape, body, grows.hasShape has⟩

/-- Binding one more symbol keeps the names of a scope in order. -/
theorem Scope.ConsistentIn.bind {id : ScopeId} {scope : Scope}
    (consistent : scope.ConsistentIn table id) (name : Encoding) {symbol : SymbolId}
    (there : table.HasSymbol symbol) : (scope.bind name symbol).ConsistentIn table id where
  names := Scope.names_bind .. ▸ Region.nodup_including consistent.names
  symbols := by
    refine Scope.forall_bindIn (fun ids => ids.Nodup ∧ ∀ id ∈ ids, table.HasSymbol id)
      consistent.symbols ⟨List.nodup_nil, by simp⟩ ?_
    rintro ids ⟨distinct, all⟩
    refine ⟨Region.nodup_including distinct, fun other member => ?_⟩
    rcases Region.mem_including.mp member with old | rfl
    · exact all other old
    · exact there
  nominated := consistent.nominated
  bases := consistent.bases
  parameters := consistent.parameters

/-- A scope with one more nominated namespace. -/
theorem Scope.ConsistentIn.nominate {id target : ScopeId} {scope : Scope} {region : Region}
    (consistent : scope.ConsistentIn table id) (there : table.HasShape target .namespaceBody)
    (nominates : scope.region.nominate? target = some region) :
    ({ scope with region := region } : Scope).ConsistentIn table id := by
  have more : region.nominated = Region.including scope.region.nominated target ∧
      region.bases = scope.region.bases ∧ region.parameters? = scope.region.parameters? := by
    cases same : scope.region <;> rw [same] at nominates <;> cases nominates <;> exact ⟨rfl, rfl, rfl⟩
  rcases more with ⟨nominated, bases, parameters⟩
  constructor
  · exact consistent.names
  · exact consistent.symbols
  · dsimp only
    rw [nominated]
    refine ⟨Region.nodup_including consistent.nominated.1, fun other member => ?_⟩
    rcases Region.mem_including.mp member with old | rfl
    · exact consistent.nominated.2 other old
    · exact there
  · dsimp only
    rw [bases]
    exact consistent.bases
  · dsimp only
    rw [parameters]
    exact consistent.parameters

/-- A class with one more base. -/
theorem Scope.ConsistentIn.withBase {id base : ScopeId} {scope : Scope} {region : Region}
    (consistent : scope.ConsistentIn table id) (other : base ≠ id)
    (there : table.HasShape base .classBody) (has : scope.region.withBase? base = some region) :
    ({ scope with region := region } : Scope).ConsistentIn table id := by
  cases same : scope.region with
  | classBody name specifier bases =>
    rw [same] at has
    unfold Region.withBase? at has
    dsimp only at has
    split at has
    · cases has
    · next fresh =>
      cases has
      have old := consistent.bases
      rw [same] at old
      constructor
      · exact consistent.names
      · exact consistent.symbols
      · exact ⟨List.nodup_nil, fun target member => absurd member List.not_mem_nil⟩
      · refine ⟨List.nodup_append.mpr ⟨old.1, List.nodup_singleton base, ?_⟩, ?_⟩
        · rintro first member second last rfl
          exact fresh (List.mem_singleton.mp last ▸ member)
        · intro first member
          rcases List.mem_append.mp member with there | last
          · exact old.2 first there
          · rw [List.mem_singleton.mp last]
            exact ⟨other, there⟩
      · exact fun inside member => nomatch member
  | _ => rw [same] at has; cases has

namespace Table

/-- Where all parts of a table agree, no index leads out of it. -/
theorem Consistent.sound (consistent : table.Consistent) : table.Sound := by
  intro scope member
  rcases List.mem_iff_getElem.mp member with ⟨index, inside, rfl⟩
  have read : table.scope ⟨index⟩ = .ok table.scopes.toList[index] :=
    scope_eq_ok_iff.mpr (Array.getElem?_eq_getElem inside)
  have own := consistent.scopes _ _ read
  refine ⟨fun outer around => ?_, fun target named => ?_, fun binding member =>
    (own.symbols binding member).2, fun binding member => (own.symbols binding member).1⟩
  · exact consistent.nests.outer _ _ outer read (Option.mem_toList.mp around)
  · rcases List.mem_append.mp named with links | parameters
    · rcases List.mem_append.mp links with nominated | base
      · exact (own.nominated.2 target nominated).hasScope
      · exact (own.bases.2 target base).2.hasScope
    · exact own.parameters target (Option.mem_toList.mp parameters)

/-! ## Nesting -/

/-- Nesting only depends on which scopes lie around which and are listed in which. -/
theorem Nests.of_links (nests : before.Nests)
    (links : ∀ id, (after.scope id).map (fun scope => (scope.outer, scope.nested)) =
      (before.scope id).map fun scope => (scope.outer, scope.nested)) : after.Nests := by
  have back : ∀ {id scope}, after.scope id = .ok scope → ∃ old, before.scope id = .ok old ∧
      scope.outer = old.outer ∧ scope.nested = old.nested := by
    intro id scope read
    have same := links id
    rw [read] at same
    rcases Outcome.of_map same.symm with ⟨old, found, both⟩
    exact ⟨old, found, (congrArg Prod.fst both).symm, (congrArg Prod.snd both).symm⟩
  have forth : ∀ {id}, before.HasScope id → after.HasScope id := by
    intro id inside
    rcases scope_of_hasScope inside with ⟨scope, read⟩
    have same := links id
    rw [read] at same
    rcases Outcome.of_map same with ⟨later, found, _⟩
    exact hasScope_of_scope found
  constructor
  · intro id scope outer read around
    rcases back read with ⟨old, readOld, same, _⟩
    exact forth (nests.outer id old outer readOld (same ▸ around))
  · intro id scope read inner member
    rcases back read with ⟨old, readOld, _, same⟩
    exact forth (nests.nested id old readOld inner (same ▸ member))
  · intro outer around inner inside readOuter readInner
    rcases back readOuter with ⟨oldOuter, readOldOuter, _, sameNested⟩
    rcases back readInner with ⟨oldInner, readOldInner, sameOuter, _⟩
    rw [sameNested, sameOuter]
    exact nests.once outer oldOuter inner oldInner readOldOuter readOldInner

/-- Changing a scope otherwise does not touch nesting. -/
theorem Nests.modifyScope (nests : table.Nests) (target : ScopeId) {change : Scope → Scope}
    (links : ∀ scope, (change scope).outer = scope.outer ∧ (change scope).nested = scope.nested) :
    (table.modifyScope target change).Nests := by
  apply nests.of_links
  intro id
  rw [scope_modifyScope]
  split
  · cases table.scope id with
    | error fault => rfl
    | ok scope =>
      have same := links scope
      exact congrArg Except.ok (Prod.ext same.1 same.2)
  · rfl

theorem Nests.count_nextScope (nests : table.Nests) {id : ScopeId} {scope : Scope}
    (read : table.scope id = .ok scope) : scope.nested.count table.nextScope = 0 :=
  List.count_eq_zero.mpr fun member => ne_nextScope (nests.nested id scope read _ member) rfl

theorem Nests.outer_ne_nextScope (nests : table.Nests) {id : ScopeId} {scope : Scope}
    (read : table.scope id = .ok scope) : scope.outer ≠ some table.nextScope := fun around =>
  ne_nextScope (nests.outer id scope _ read around) rfl

/-- Where one scope is added to a list or none, no other one is. -/
theorem count_added_of_ne {inner added : ScopeId} (other : inner ≠ added) (condition : Prop)
    [Decidable condition] : (if condition then [added] else []).count inner = 0 := by
  split
  · exact List.count_eq_zero.mpr fun member => other (List.mem_singleton.mp member)
  · rfl

/-- A new scope is listed in the scope around it, and lists none itself. -/
theorem Nests.once_createScope (nests : table.Nests) {region : Region} {around : ScopeId}
    (inside : table.HasScope around) {node : Tree.NodeId} {outer inner : ScopeId}
    {scope found : Scope}
    (readOuter : (table.createScope region (some around) (some node)).1.scope outer = .ok scope)
    (readInner : (table.createScope region (some around) (some node)).1.scope inner = .ok found) :
    scope.nested.count inner = if found.outer = some outer then 1 else 0 := by
  rcases of_scope_createScope inside readOuter with ⟨rfl, rfl⟩ | ⟨_, old, before, rfl⟩
  · rcases of_scope_createScope inside readInner with ⟨_, rfl⟩ | ⟨_, earlier, beforeInner, rfl⟩
    · exact (if_neg fun same => ne_nextScope inside (Option.some.inj same)).symm
    · exact (if_neg (nests.outer_ne_nextScope beforeInner)).symm
  · rw [List.count_append]
    rcases of_scope_createScope inside readInner with ⟨rfl, rfl⟩ | ⟨apart, earlier, beforeInner, rfl⟩
    · rw [nests.count_nextScope before]
      by_cases same : outer = around
      · simp [Scope.ofRegion, same]
      · simp [Scope.ofRegion, same, Ne.symm same]
    · rw [nests.once outer old inner earlier before beforeInner, count_added_of_ne apart, Nat.add_zero]

theorem Nests.createScope (nests : table.Nests) (region : Region) {around : ScopeId}
    (inside : table.HasScope around) (node : Tree.NodeId) :
    (table.createScope region (some around) (some node)).1.Nests := by
  have grows : table.Grows _ := grows_createScope region around node
  refine ⟨fun id scope outer read same => ?_, fun id scope read inner member => ?_,
    fun _ _ _ _ readOuter readInner => nests.once_createScope inside readOuter readInner⟩
  · rcases of_scope_createScope inside read with ⟨rfl, rfl⟩ | ⟨_, found, before, rfl⟩
    · cases same
      exact grows.hasScope inside
    · exact grows.hasScope (nests.outer id found outer before same)
  · rcases of_scope_createScope inside read with ⟨rfl, rfl⟩ | ⟨_, found, before, rfl⟩
    · cases member
    rcases List.mem_append.mp member with there | last
    · exact grows.hasScope (nests.nested id found before inner there)
    · split at last
      · rw [List.mem_singleton.mp last]
        exact hasScope_of_scope (scope_createScope_self region inside node)
      · cases last

theorem count_movedScope_of_ne {inner moved : ScopeId} (other : inner ≠ moved) (outer : ScopeId)
    (previous : Option ScopeId) (id : ScopeId) (scope : Scope) :
    (movedScope moved outer previous id scope).nested.count inner = scope.nested.count inner := by
  unfold movedScope
  rw [List.count_append, count_added_of_ne other, Nat.add_zero]
  split
  · exact List.count_filter (by simpa using other)
  · rfl

/-- A moved scope is gone from where it was, and listed where it is now. -/
theorem Nests.count_moved (nests : table.Nests) {moved id : ScopeId} {found scope : Scope}
    (read : table.scope moved = .ok found) (outer : ScopeId)
    (before : table.scope id = .ok scope) :
    (movedScope moved outer found.outer id scope).nested.count moved =
      if some outer = some id then 1 else 0 := by
  have gone : (if found.outer = some id then scope.nested.filter (· ≠ moved)
      else scope.nested).count moved = 0 := by
    split
    · exact List.count_eq_zero.mpr fun member => by simp at member
    · next apart => rw [nests.once id scope moved found before read, if_neg apart]
  unfold movedScope
  rw [List.count_append, gone, Nat.zero_add]
  by_cases last : id = outer
  · simp [last]
  · simp [last, Ne.symm last]

/-- A scope that is moved is taken from the one list and put into the other one. -/
theorem Nests.reparent (nests : table.Nests) {moved outer : ScopeId}
    (inside : table.HasScope outer) (done : table.reparent moved outer = .ok after) :
    after.Nests := by
  rcases of_reparent done with rfl | ⟨found, read, moves⟩
  · exact nests
  have grows := grows_reparent done
  constructor
  · intro id scope around readScope same
    rcases moves.of_scope readScope with ⟨old, before, rfl⟩
    unfold movedScope at same
    dsimp only at same
    split at same
    · cases same
      exact grows.hasScope inside
    · exact grows.hasScope (nests.outer id old around before same)
  · intro id scope readScope inner member
    rcases moves.of_scope readScope with ⟨old, before, rfl⟩
    rcases List.mem_append.mp member with there | last
    · split at there
      · exact grows.hasScope (nests.nested id old before inner (List.mem_of_mem_filter there))
      · exact grows.hasScope (nests.nested id old before inner there)
    · split at last
      · rw [List.mem_singleton.mp last]
        exact grows.hasScope (hasScope_of_scope read)
      · cases last
  · intro id scope inner inside readScope readInner
    rcases moves.of_scope readScope with ⟨around, before, rfl⟩
    rcases moves.of_scope readInner with ⟨old, beforeInner, rfl⟩
    by_cases same : inner = moved
    · subst same
      rw [nests.count_moved read outer before]
      simp [movedScope]
    · rw [count_movedScope_of_ne same, nests.once id around inner old before beforeInner]
      simp [movedScope, same]

/-! ## Operations -/

/-- A table in which nothing was declared, whether or not lookup is to search base classes. -/
theorem consistent_initial (searchesBases : Bool) :
    ({ initial with searchesBases := searchesBases } : Table).Consistent := by
  have only : ∀ {id scope}, ({ initial with searchesBases := searchesBases } : Table).scope id =
      .ok scope → scope = .ofRegion (.namespaceBody .empty [] []) none :=
    fun read => (of_scope_initial searchesBases read).2
  constructor
  · intro id scope read
    rw [only read]
    constructor <;> simp [Scope.ofRegion, Region.nominated, Region.bases, Region.parameters?]
  · intro id symbol read
    exact absurd (hasSymbol_of_symbol read) (Nat.not_lt_zero _)
  · constructor
    · intro id scope outer read same
      rw [only read] at same
      cases same
    · intro id scope read inner member
      rw [only read] at member
      cases member
    · intro outer around inner inside readOuter readInner
      rw [only readOuter, only readInner]
      rfl
  · exact fun note member => absurd member List.not_mem_nil

/-- An operation that changes one scope, apart from its place, and no symbol. -/
theorem Consistent.modifyScope (consistent : table.Consistent) (target : ScopeId)
    {change : Scope → Scope} (grows : table.Grows (table.modifyScope target change))
    (links : ∀ scope, (change scope).outer = scope.outer ∧ (change scope).nested = scope.nested)
    (changed : ∀ scope, table.scope target = .ok scope → scope.ConsistentIn table target →
      (change scope).ConsistentIn table target) :
    (table.modifyScope target change).Consistent where
  scopes id scope read := by
    rcases of_scope_modifyScope read with ⟨old, before, rfl | ⟨rfl, rfl⟩⟩
    · exact (consistent.scopes id scope before).grows grows
    · exact (changed old before (consistent.scopes target old before)).grows grows
  symbols id symbol read := (consistent.symbols id symbol read).grows grows
  nests := consistent.nests.modifyScope target links
  notes note member := grows.hasScope (consistent.notes note member)

/-- An operation that changes one symbol and no scope. -/
theorem Consistent.modifySymbol (consistent : table.Consistent) (target : SymbolId)
    {change : Symbol → Symbol} (grows : table.Grows (table.modifySymbol target change))
    (changed : ∀ symbol, table.symbol target = .ok symbol → symbol.ConsistentIn table target →
      (change symbol).ConsistentIn table target) :
    (table.modifySymbol target change).Consistent where
  scopes id scope read := (consistent.scopes id scope read).grows grows
  symbols id symbol read := by
    rcases of_symbol_modifySymbol read with ⟨old, before, rfl | ⟨rfl, rfl⟩⟩
    · exact (consistent.symbols id symbol before).grows grows
    · exact (changed old before (consistent.symbols target old before)).grows grows
  nests := consistent.nests.of_links fun _ => rfl
  notes note member := grows.hasScope (consistent.notes note member)

theorem Consistent.makeVisible (consistent : table.Consistent) {scope : ScopeId} {name : Encoding}
    {id : SymbolId} {fresh : Bool} (there : table.HasSymbol id)
    (done : table.makeVisible scope name id = .ok (after, fresh)) : after.Consistent := by
  have grows := grows_makeVisible done
  rcases of_makeVisible done with ⟨found, _, rfl⟩
  exact consistent.modifyScope scope grows (fun _ => ⟨rfl, rfl⟩)
    fun _ _ inOrder => inOrder.bind name there

theorem Consistent.addNominated (consistent : table.Consistent) {scope target : ScopeId}
    {able : Bool} (there : table.HasShape target .namespaceBody)
    (done : table.addNominated scope target = .ok (after, able)) : after.Consistent := by
  have grows := grows_addNominated done
  rcases of_addNominated done with rfl | ⟨found, region, read, nominates, rfl⟩
  · exact consistent
  · refine consistent.modifyScope scope grows (fun _ => ⟨rfl, rfl⟩) fun other same inOrder => ?_
    rw [read] at same
    cases same
    exact inOrder.nominate there nominates

theorem Consistent.addBase (consistent : table.Consistent) {scope base : ScopeId} {fresh : Bool}
    (there : table.HasShape base .classBody)
    (done : table.addBase scope base = .ok (after, fresh)) : after.Consistent := by
  have grows := grows_addBase done
  rcases of_addBase done with rfl | ⟨other, found, region, read, has, rfl⟩
  · exact consistent
  · refine consistent.modifyScope scope grows (fun _ => ⟨rfl, rfl⟩) fun found same inOrder => ?_
    rw [read] at same
    cases same
    exact inOrder.withBase (Ne.symm other) there has

theorem Consistent.addFragment (consistent : table.Consistent) (scope : ScopeId)
    (node : Tree.NodeId) : (table.addFragment scope node).Consistent := by
  refine consistent.modifyScope scope (grows_addFragment scope node) (fun _ => ⟨rfl, rfl⟩) ?_
  rintro ⟨region, outer, nested, bindings⟩ _ inOrder
  constructor
  · exact inOrder.names
  · exact inOrder.symbols
  · cases region <;> exact inOrder.nominated
  · cases region <;> exact inOrder.bases
  · cases region <;> exact inOrder.parameters

theorem Consistent.setNodeScope (consistent : table.Consistent) (node : Tree.NodeId)
    {scope : ScopeId} (there : table.HasScope scope) :
    (table.setNodeScope node scope).Consistent where
  scopes id found read := (consistent.scopes id found read).grows (grows_setNodeScope ..)
  symbols id symbol read := (consistent.symbols id symbol read).grows (grows_setNodeScope ..)
  nests := consistent.nests.of_links fun _ => rfl
  notes := List.forall_mem_cons.mpr ⟨there, consistent.notes⟩

/-- A symbol gets a scope of the shape that its family asks for. -/
theorem Consistent.setDefines (consistent : table.Consistent) {id : SymbolId} {scope : ScopeId}
    {shape : Region.Shape} (there : table.HasShape scope shape)
    (fits : ∀ symbol, table.symbol id = .ok symbol → symbol.kind.family.body? = some shape ∧
      (symbol.kind.family = .namespaceName → symbol.defines = none)) :
    (table.modifySymbol id ({ · with defines := some scope })).Consistent := by
  have grows := grows_setDefines id scope fun symbol read => (fits symbol read).2
  refine consistent.modifySymbol id grows fun symbol read inOrder => ?_
  constructor
  · exact inOrder.bound
  · exact inOrder.aliased
  · rintro other same
    cases same
    exact ⟨shape, (fits symbol read).1, there⟩

/-- Merging changes neither what a type definition stands for nor the scope of a symbol. -/
theorem Consistent.merge (consistent : table.Consistent) (id : SymbolId) (symbol : Symbol) :
    (table.modifySymbol id (merged · symbol)).Consistent := by
  have grows : table.Grows (table.modifySymbol id (merged · symbol)) :=
    grows_modifySymbol id fun old _ => .merged old symbol
  refine consistent.modifySymbol id grows fun old read inOrder => ?_
  constructor
  · exact inOrder.bound
  · intro target same
    refine inOrder.aliased target ?_
    revert same
    unfold merged
    cases old.kind <;> cases symbol.kind <;> simp [mergedKind]
  · intro scope same
    rw [← (resembles_merged old symbol).1]
    exact inOrder.defines scope same

/-- A new symbol is bound where it is declared. -/
theorem Consistent.enter (consistent : table.Consistent) {symbol : Symbol} {found : Scope}
    (read : table.scope symbol.scope = .ok found) (unopened : symbol.defines = none)
    (aliased : ∀ target, symbol.kind = .typedefName (some target) → table.HasSymbol target) :
    ((table.withSymbol symbol).modifyScope symbol.scope
      (·.bind symbol.name table.nextSymbol)).Consistent := by
  have grows : table.Grows ((table.withSymbol symbol).modifyScope symbol.scope
      (·.bind symbol.name table.nextSymbol)) :=
    (grows_withSymbol symbol).trans
      (grows_modifyScope symbol.scope fun _ _ => ⟨rfl, fun _ => Scope.prefix_named_bind ..⟩)
  have entered : ((table.withSymbol symbol).modifyScope symbol.scope
      (·.bind symbol.name table.nextSymbol)).symbol table.nextSymbol = .ok symbol :=
    (symbol_withSymbol ..).trans (if_pos rfl)
  have bound : ((table.withSymbol symbol).modifyScope symbol.scope
      (·.bind symbol.name table.nextSymbol)).scope symbol.scope =
        .ok (found.bind symbol.name table.nextSymbol) := by
    rw [scope_modifyScope, if_pos rfl, scope_withSymbol, read]
    rfl
  constructor
  · intro id scope readScope
    by_cases same : symbol.scope = id
    · subst same
      rw [bound] at readScope
      cases readScope
      exact ((consistent.scopes _ found read).grows grows).bind _ (hasSymbol_of_symbol entered)
    · rw [scope_modifyScope, if_neg same] at readScope
      exact (consistent.scopes id scope readScope).grows grows
  · intro id other readSymbol
    by_cases same : id = table.nextSymbol
    · subst same
      rw [entered] at readSymbol
      cases readSymbol
      constructor
      · refine ⟨_, bound, ?_⟩
        rw [Scope.named_bind, if_pos rfl]
        exact Region.mem_including.mpr (.inr rfl)
      · exact fun target same => grows.hasSymbol (aliased target same)
      · intro scope same
        rw [unopened] at same
        cases same
    · rw [symbol_modifyScope, symbol_withSymbol, if_neg same] at readSymbol
      exact (consistent.symbols id other readSymbol).grows grows
  · have nests : (table.withSymbol symbol).Nests := consistent.nests.of_links fun _ => rfl
    exact nests.modifyScope symbol.scope fun _ => ⟨rfl, rfl⟩
  · exact fun note member => grows.hasScope (consistent.notes note member)

theorem Consistent.declares (consistent : table.Consistent) {symbol : Symbol}
    {answer : Except Refusal SymbolId} (unopened : symbol.defines = none)
    (aliased : ∀ target, symbol.kind = .typedefName (some target) → table.HasSymbol target)
    (done : table.Declares symbol.scope symbol after answer) : after.Consistent := by
  cases done with
  | fresh found read judged => exact consistent.enter read unopened aliased
  | again found id read judged => exact consistent.merge id symbol
  | refused => exact consistent

theorem Consistent.createScope (consistent : table.Consistent) {region : Region}
    {outer : ScopeId} (inside : table.HasScope outer) (node : Tree.NodeId)
    (inOrder : (Scope.ofRegion region (some outer)).ConsistentIn table table.nextScope) :
    (table.createScope region (some outer) (some node)).1.Consistent := by
  have grows : table.Grows _ := grows_createScope region outer node
  constructor
  · intro id scope read
    rcases of_scope_createScope inside read with ⟨rfl, rfl⟩ | ⟨_, old, before, rfl⟩
    · exact inOrder.grows grows
    · have kept := (consistent.scopes id old before).grows grows
      exact ⟨kept.names, kept.symbols, kept.nominated, kept.bases, kept.parameters⟩
  · intro id symbol read
    rw [symbol_createScope] at read
    exact (consistent.symbols id symbol read).grows grows
  · exact consistent.nests.createScope region inside node
  · rw [nodeScopes_createScope region inside node]
    exact List.forall_mem_cons.mpr
      ⟨hasScope_of_scope (scope_createScope_self region inside node),
        fun note member => grows.hasScope (consistent.notes note member)⟩

theorem Consistent.reparent (consistent : table.Consistent) {moved outer : ScopeId}
    (inside : table.HasScope outer) (done : table.reparent moved outer = .ok after) :
    after.Consistent := by
  have grows := grows_reparent done
  have nests := consistent.nests.reparent inside done
  rcases of_reparent done with rfl | ⟨found, _, moves⟩
  · exact consistent
  constructor
  · intro id scope read
    rcases moves.of_scope read with ⟨old, before, rfl⟩
    have kept := (consistent.scopes id old before).grows grows
    exact ⟨kept.names, kept.symbols, kept.nominated, kept.bases, kept.parameters⟩
  · intro id symbol read
    rw [moves.symbol] at read
    exact (consistent.symbols id symbol read).grows grows
  · exact nests
  · rw [moves.nodeScopes]
    exact fun note member => grows.hasScope (consistent.notes note member)

end Table
end
end CppNames
