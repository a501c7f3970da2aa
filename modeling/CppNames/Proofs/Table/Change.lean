import CppNames.Proofs.Table.Sound
import CppNames.Table.Declare

namespace CppNames

/-!
# What a change leaves behind

The operations on a table are read back here: which scope and which symbol is found behind an
index once an operation was done, and which symbols share a name.  An operation changes at most
one scope and one symbol, apart from moves, which change three scopes.  Everything that is said
later about tables that were put together by operations rests on these equations.
-/

theorem ScopeId.index_inj {left right : ScopeId} : left.index = right.index ↔ left = right := by
  cases left
  cases right
  simp

theorem SymbolId.index_inj {left right : SymbolId} : left.index = right.index ↔ left = right := by
  cases left
  cases right
  simp

/-! ## Names of a scope -/

namespace Region

theorem mem_including {α : Type} [DecidableEq α] {members : List α} {member other : α} :
    other ∈ including members member ↔ other ∈ members ∨ other = member := by
  unfold including
  split
  · next old =>
    constructor
    · exact .inl
    · rintro (there | rfl)
      · exact there
      · exact old
  · simp

theorem nodup_including {α : Type} [DecidableEq α] {members : List α} {member : α}
    (distinct : members.Nodup) : (including members member).Nodup := by
  unfold including
  split
  · exact distinct
  · next fresh => exact List.nodup_append.mpr ⟨distinct, by simp, by aesop⟩

theorem prefix_including {α : Type} [DecidableEq α] (members : List α) (member : α) :
    members <+: including members member := by
  unfold including
  split
  · exact List.prefix_refl _
  · exact List.prefix_append _ _

end Region

namespace Scope

theorem named_cons (region : Region) (outer : Option ScopeId) (nested : List ScopeId)
    (first : Binding) (rest : List Binding) (name : Encoding) :
    (Scope.mk region outer nested (first :: rest)).named name =
      if first.name = name then first.symbols
      else (Scope.mk region outer nested rest).named name := by
  unfold named
  rw [List.find?_cons]
  by_cases same : first.name = name
  · simp [same]
  · simp [same, beq_eq_false_iff_ne.mpr same]

/-- Binding a symbol under a name adds it behind the symbols that share the name. -/
theorem named_bind (scope : Scope) (name other : Encoding) (id : SymbolId) :
    (scope.bind name id).named other =
      if name = other then Region.including (scope.named name) id else scope.named other := by
  rcases scope with ⟨region, outer, nested, bindings⟩
  unfold bind
  dsimp only
  induction bindings with
  | nil =>
    rw [bindIn, named_cons]
    rfl
  | cons first rest ih =>
    unfold bindIn
    by_cases same : first.name = name
    · rw [if_pos same, named_cons, named_cons, named_cons, same]
      by_cases asked : name = other
      · simp [asked]
      · simp [asked]
    · rw [if_neg same, named_cons, named_cons, named_cons, ih, if_neg same]
      by_cases asked : name = other
      · rw [if_pos asked, if_pos asked, if_neg (asked ▸ same)]
      · rw [if_neg asked, if_neg asked]

theorem names_bindIn (name : Encoding) (id : SymbolId) (bindings : List Binding) :
    (bindIn name id bindings).map (·.name) = Region.including (bindings.map (·.name)) name := by
  induction bindings with
  | nil => rfl
  | cons first rest ih =>
    unfold bindIn
    by_cases same : first.name = name
    · simp [same, Region.including]
    · have other : ¬ name = first.name := Ne.symm same
      rw [if_neg same, List.map_cons, ih, List.map_cons]
      by_cases there : name ∈ rest.map (·.name)
      · rw [Region.including, Region.including, if_pos there,
          if_pos (List.mem_cons_of_mem _ there)]
      · rw [Region.including, Region.including, if_neg there, if_neg (by simp [there, other]),
          List.cons_append]

theorem names_bind (scope : Scope) (name : Encoding) (id : SymbolId) :
    (scope.bind name id).bindings.map (·.name) =
      Region.including (scope.bindings.map (·.name)) name :=
  names_bindIn name id scope.bindings

/-- What holds of the symbols of every name, and goes on holding with one more symbol, holds
after a symbol was bound. -/
theorem forall_bindIn (property : List SymbolId → Prop) {name : Encoding} {id : SymbolId}
    {bindings : List Binding} (all : ∀ binding ∈ bindings, property binding.symbols)
    (none : property []) (more : ∀ ids, property ids → property (Region.including ids id)) :
    ∀ binding ∈ bindIn name id bindings, property binding.symbols := by
  induction bindings with
  | nil => exact fun binding member => List.mem_singleton.mp member ▸ more [] none
  | cons first rest ih =>
    have holds := List.forall_mem_cons.mp all
    unfold bindIn
    split
    · exact List.forall_mem_cons.mpr ⟨more _ holds.1, holds.2⟩
    · exact List.forall_mem_cons.mpr ⟨holds.1, ih holds.2⟩

theorem prefix_named_bind (scope : Scope) (name other : Encoding) (id : SymbolId) :
    scope.named other <+: (scope.bind name id).named other := by
  rw [named_bind]
  split
  · next same => exact same ▸ Region.prefix_including _ _
  · exact List.prefix_refl _

end Scope

namespace Table

variable {table : Table}

theorem symbol_eq_ok_iff {id : SymbolId} {symbol : Symbol} :
    table.symbol id = .ok symbol ↔ table.symbols[id.index]? = some symbol := by
  unfold Table.symbol
  cases table.symbols[id.index]? <;> simp

theorem hasSymbol_of_symbol {id : SymbolId} {symbol : Symbol}
    (read : table.symbol id = .ok symbol) : table.HasSymbol id :=
  (Array.getElem?_eq_some_iff.mp (symbol_eq_ok_iff.mp read)).1

/-! ## Changing one scope or one symbol -/

theorem scope_modifyScope (target : ScopeId) (change : Scope → Scope) (id : ScopeId) :
    (table.modifyScope target change).scope id =
      if target = id then (table.scope id).map change else table.scope id := by
  unfold Table.scope modifyScope
  dsimp only
  rw [Array.getElem?_modify]
  by_cases same : target = id
  · rw [if_pos (ScopeId.index_inj.mpr same), if_pos same]
    cases table.scopes[id.index]? <;> rfl
  · rw [if_neg (mt ScopeId.index_inj.mp same), if_neg same]

/-- A scope behind a change of one scope was there before, and if it is not that one, it is the
same. -/
theorem of_scope_modifyScope {target id : ScopeId} {change : Scope → Scope} {later : Scope}
    (read : (table.modifyScope target change).scope id = .ok later) :
    ∃ old, table.scope id = .ok old ∧ (later = old ∨ target = id ∧ later = change old) := by
  rw [scope_modifyScope] at read
  split at read
  · next same =>
    rcases Outcome.of_map read with ⟨old, before, rfl⟩
    exact ⟨old, before, .inr ⟨same, rfl⟩⟩
  · exact ⟨later, read, .inl rfl⟩

/-- Where one more symbol is bound, what a scope has under a name was there, or is this symbol. -/
theorem of_mem_named_bind {target other : ScopeId} {name key : Encoding} {id member : SymbolId}
    {scope : Scope} (read : (table.modifyScope target (·.bind name id)).scope other = .ok scope)
    (among : member ∈ scope.named key) :
    ∃ old, table.scope other = .ok old ∧
      (member ∈ old.named key ∨ target = other ∧ name = key ∧ member = id) := by
  rcases of_scope_modifyScope read with ⟨old, before, rfl | ⟨sameScope, rfl⟩⟩
  · exact ⟨scope, before, .inl among⟩
  · refine ⟨old, before, ?_⟩
    rw [Scope.named_bind] at among
    split at among
    · next sameName =>
      subst sameName
      exact (Region.mem_including.mp among).imp_right fun new => ⟨sameScope, rfl, new⟩
    · exact .inl among

theorem symbol_modifyScope (target : ScopeId) (change : Scope → Scope) (id : SymbolId) :
    (table.modifyScope target change).symbol id = table.symbol id := rfl

theorem symbol_modifySymbol (target : SymbolId) (change : Symbol → Symbol) (id : SymbolId) :
    (table.modifySymbol target change).symbol id =
      if target = id then (table.symbol id).map change else table.symbol id := by
  unfold Table.symbol modifySymbol
  dsimp only
  rw [Array.getElem?_modify]
  by_cases same : target = id
  · rw [if_pos (SymbolId.index_inj.mpr same), if_pos same]
    cases table.symbols[id.index]? <;> rfl
  · rw [if_neg (mt SymbolId.index_inj.mp same), if_neg same]

/-- A symbol behind a change of one symbol was there before, and if it is not that one, it is the
same. -/
theorem of_symbol_modifySymbol {target id : SymbolId} {change : Symbol → Symbol} {later : Symbol}
    (read : (table.modifySymbol target change).symbol id = .ok later) :
    ∃ old, table.symbol id = .ok old ∧ (later = old ∨ target = id ∧ later = change old) := by
  rw [symbol_modifySymbol] at read
  split at read
  · next same =>
    rcases Outcome.of_map read with ⟨old, before, rfl⟩
    exact ⟨old, before, .inr ⟨same, rfl⟩⟩
  · exact ⟨later, read, .inl rfl⟩

theorem hasScope_modifyScope (target : ScopeId) (change : Scope → Scope) (id : ScopeId) :
    (table.modifyScope target change).HasScope id ↔ table.HasScope id := by
  simp [HasScope, modifyScope]

theorem hasSymbol_modifySymbol (target : SymbolId) (change : Symbol → Symbol) (id : SymbolId) :
    (table.modifySymbol target change).HasSymbol id ↔ table.HasSymbol id := by
  simp [HasSymbol, modifySymbol]

/-! ## New scopes -/

/-- The index of the next scope. -/
def nextScope (table : Table) : ScopeId := ⟨table.scopes.size⟩

/-- The table with one more scope, which is nested in none yet. -/
def withScope (table : Table) (scope : Scope) : Table :=
  { table with scopes := table.scopes.push scope }

theorem scope_withScope (scope : Scope) (id : ScopeId) :
    (table.withScope scope).scope id =
      if id = table.nextScope then .ok scope else table.scope id := by
  unfold Table.scope withScope
  dsimp only
  rw [Array.getElem?_push]
  have index : id.index = table.scopes.size ↔ id = table.nextScope :=
    @ScopeId.index_inj id table.nextScope
  by_cases same : id = table.nextScope
  · rw [if_pos same, if_pos (index.mpr same)]
  · rw [if_neg same, if_neg (mt index.mp same)]

/-- Before anything is declared there is the global scope alone, and it is empty. -/
theorem of_scope_initial (searchesBases : Bool) {id : ScopeId} {scope : Scope}
    (read : ({ initial with searchesBases := searchesBases } : Table).scope id = .ok scope) :
    id = global ∧ scope = .ofRegion (.namespaceBody .empty [] []) none := by
  have inside : id.index < 1 := hasScope_of_scope read
  obtain rfl : id = global := ScopeId.index_inj.mp (Nat.lt_one_iff.mp inside)
  cases read
  exact ⟨rfl, rfl⟩

/-- A scope of the table is not the next one. -/
theorem ne_nextScope {id : ScopeId} (inside : table.HasScope id) : id ≠ table.nextScope := by
  rintro rfl
  exact Nat.lt_irrefl _ inside

/-- A scope inside a scope that is there is entered, is nested in it and is noted. -/
theorem createScope_of_hasScope (region : Region) {outer : ScopeId} (inside : table.HasScope outer)
    (node : Tree.NodeId) :
    table.createScope region (some outer) (some node) =
      (((table.withScope (.ofRegion region (some outer))).modifyScope outer
        fun found => { found with nested := found.nested ++ [table.nextScope] }).setNodeScope node
          table.nextScope, .ok table.nextScope) := by
  have room : outer.index < (table.scopes.push (.ofRegion region (some outer))).size := by
    rw [Array.size_push]
    exact Nat.lt_succ_of_lt inside
  simp only [createScope, Option.elim, Option.all_some, decide_eq_true room, if_true]
  rfl

/-- The scopes behind a new one: it comes last, and the scope around it lists it. -/
theorem scope_createScope (region : Region) {outer : ScopeId} (inside : table.HasScope outer)
    (node : Tree.NodeId) (id : ScopeId) :
    (table.createScope region (some outer) (some node)).1.scope id =
      if id = table.nextScope then .ok (.ofRegion region (some outer))
      else (table.scope id).map fun scope =>
        { scope with nested := scope.nested ++ if id = outer then [table.nextScope] else [] } := by
  rw [createScope_of_hasScope region inside node]
  change (Table.modifyScope _ _ _).scope id = _
  rw [scope_modifyScope, scope_withScope]
  have other : outer ≠ table.nextScope := ne_nextScope inside
  by_cases fresh : id = table.nextScope
  · rw [if_pos fresh, if_pos fresh, if_neg (fresh ▸ other)]
  · rw [if_neg fresh, if_neg fresh]
    by_cases around : id = outer
    · simp [around]
    · simp [around, Ne.symm around]
      cases table.scope id <;> rfl

theorem scope_createScope_self (region : Region) {outer : ScopeId} (inside : table.HasScope outer)
    (node : Tree.NodeId) :
    (table.createScope region (some outer) (some node)).1.scope table.nextScope =
      .ok (.ofRegion region (some outer)) := by
  rw [scope_createScope region inside node, if_pos rfl]

/-- A scope behind a new one is the new one, or it was there, and lists the new one if this lies
directly inside it. -/
theorem of_scope_createScope {region : Region} {outer : ScopeId} (inside : table.HasScope outer)
    {node : Tree.NodeId} {id : ScopeId} {later : Scope}
    (read : (table.createScope region (some outer) (some node)).1.scope id = .ok later) :
    id = table.nextScope ∧ later = .ofRegion region (some outer) ∨
      id ≠ table.nextScope ∧ ∃ old, table.scope id = .ok old ∧
        later = { old with
          nested := old.nested ++ if id = outer then [table.nextScope] else [] } := by
  rw [scope_createScope region inside node] at read
  split at read
  · next fresh =>
    cases read
    exact .inl ⟨fresh, rfl⟩
  · next other =>
    rcases Outcome.of_map read with ⟨old, before, rfl⟩
    exact .inr ⟨other, old, before, rfl⟩

theorem nodeScopes_createScope (region : Region) {outer : ScopeId} (inside : table.HasScope outer)
    (node : Tree.NodeId) : (table.createScope region (some outer) (some node)).1.nodeScopes =
      (node, table.nextScope) :: table.nodeScopes := by
  rw [createScope_of_hasScope region inside node]
  rfl

theorem symbol_createScope (region : Region) (outer : Option ScopeId) (node : Option Tree.NodeId)
    (id : SymbolId) : (table.createScope region outer node).1.symbol id = table.symbol id := by
  unfold createScope
  dsimp only
  split
  · cases node <;> cases outer <;> rfl
  · rfl

/-- A scope has the same names after another one was added, and the new one has none. -/
theorem bindings_createScope {region : Region} {outer : Option ScopeId}
    {node : Option Tree.NodeId} {id : ScopeId} {scope : Scope}
    (read : (table.createScope region outer node).1.scope id = .ok scope) :
    scope.bindings = [] ∨ ∃ old, table.scope id = .ok old ∧ scope.bindings = old.bindings := by
  have entered : ∀ {scope}, (table.withScope (.ofRegion region outer)).scope id = .ok scope →
      scope.bindings = [] ∨ ∃ old, table.scope id = .ok old ∧ scope.bindings = old.bindings := by
    intro scope read
    rw [scope_withScope] at read
    split at read
    · cases read
      exact .inl rfl
    · exact .inr ⟨scope, read, rfl⟩
  have placed : ∀ owner {scope}, ((table.withScope (.ofRegion region outer)).modifyScope owner
      fun found => { found with nested := found.nested ++ [table.nextScope] }).scope id = .ok scope →
      scope.bindings = [] ∨ ∃ old, table.scope id = .ok old ∧ scope.bindings = old.bindings := by
    intro owner scope read
    rcases of_scope_modifyScope read with ⟨old, before, rfl | ⟨_, rfl⟩⟩
    · exact entered before
    · have same := entered before
      exact same
  unfold createScope at read
  dsimp only at read
  split at read
  · cases outer with
    | none => cases node <;> exact entered read
    | some owner => cases node <;> exact placed owner read
  · exact entered read

/-! ## Links and visible names -/

theorem of_makeVisible {scope : ScopeId} {name : Encoding} {id : SymbolId} {after : Table}
    {fresh : Bool} (done : table.makeVisible scope name id = .ok (after, fresh)) :
    ∃ found, table.scope scope = .ok found ∧
      after = table.modifyScope scope (·.bind name id) := by
  rcases Outcome.of_bind done with ⟨found, read, same⟩
  cases same
  exact ⟨found, read, rfl⟩

theorem of_addNominated {scope target : ScopeId} {after : Table} {able : Bool}
    (done : table.addNominated scope target = .ok (after, able)) :
    after = table ∨ ∃ found region, table.scope scope = .ok found ∧
      found.region.nominate? target = some region ∧
      after = table.modifyScope scope ({ · with region := region }) := by
  rcases Outcome.of_bind done with ⟨found, read, same⟩
  split at same
  · next region nominates =>
    cases same
    exact .inr ⟨found, region, read, nominates, rfl⟩
  · cases same
    exact .inl rfl

theorem of_addBase {scope base : ScopeId} {after : Table} {fresh : Bool}
    (done : table.addBase scope base = .ok (after, fresh)) :
    after = table ∨ scope ≠ base ∧ ∃ found region, table.scope scope = .ok found ∧
      found.region.withBase? base = some region ∧
      after = table.modifyScope scope ({ · with region := region }) := by
  unfold addBase at done
  split at done
  · cases done
    exact .inl rfl
  · next other =>
    rcases Outcome.of_bind done with ⟨found, read, same⟩
    split at same
    · next region has =>
      cases same
      exact .inr ⟨other, found, region, read, has, rfl⟩
    · cases same
      exact .inl rfl

/-! ## Moving a scope -/

/-- A scope of a table in which one scope was moved into another one. -/
def movedScope (moved outer : ScopeId) (previous : Option ScopeId) (id : ScopeId)
    (scope : Scope) : Scope :=
  { scope with
    outer := if id = moved then some outer else scope.outer
    nested := (if previous = some id then scope.nested.filter (· ≠ moved) else scope.nested) ++
      if id = outer then [moved] else [] }

/-- A table in which one scope was moved into another one, out of the one that was around it. -/
structure Moves (table : Table) (moved outer : ScopeId) (previous : Option ScopeId)
    (after : Table) : Prop where
  other : moved ≠ outer
  symbols : after.symbols = table.symbols
  nodeScopes : after.nodeScopes = table.nodeScopes
  scopes : ∀ id, after.scope id = (table.scope id).map (movedScope moved outer previous id)

namespace Moves

variable {moved outer : ScopeId} {previous : Option ScopeId} {after : Table}

/-- Every scope was there before. -/
theorem of_scope (moves : table.Moves moved outer previous after) {id : ScopeId} {later : Scope}
    (read : after.scope id = .ok later) :
    ∃ old, table.scope id = .ok old ∧ later = movedScope moved outer previous id old := by
  rcases Outcome.of_map ((moves.scopes id).symm.trans read) with ⟨old, before, rfl⟩
  exact ⟨old, before, rfl⟩

theorem symbol (moves : table.Moves moved outer previous after) (id : SymbolId) :
    after.symbol id = table.symbol id := by
  unfold Table.symbol
  rw [moves.symbols]

end Moves

/-- Moving a scope changes nothing, or else every scope in the same manner. -/
theorem of_reparent {moved outer : ScopeId} {after : Table}
    (done : table.reparent moved outer = .ok after) :
    after = table ∨ ∃ found, table.scope moved = .ok found ∧
      table.Moves moved outer found.outer after := by
  rcases Outcome.of_bind done with ⟨found, read, same⟩
  split at same
  · cases same
    exact .inl rfl
  · next differs =>
    rcases not_or.mp differs with ⟨elsewhere, other⟩
    cases same
    refine .inr ⟨found, read, other, ?_, ?_, fun id => ?_⟩
    · cases found.outer <;> rfl
    · cases found.outer <;> rfl
    · rw [scope_modifyScope, scope_modifyScope]
      cases previous : found.outer with
      | none =>
        simp only [Option.elim]
        cases table.scope id with
        | error fault => split <;> split <;> rfl
        | ok scope =>
          by_cases first : id = moved <;> by_cases second : id = outer <;>
            simp_all [Except.map, movedScope, eq_comm]
      | some owner =>
        simp only [Option.elim, scope_modifyScope]
        cases table.scope id with
        | error fault => split <;> split <;> split <;> rfl
        | ok scope =>
          by_cases first : id = moved <;> by_cases second : id = outer <;>
            by_cases third : id = owner <;> simp_all [Except.map, movedScope, eq_comm]

/-! ## Operations on scopes alone -/

theorem symbols_createScope (region : Region) (outer : Option ScopeId)
    (node : Option Tree.NodeId) :
    (table.createScope region outer node).1.symbols = table.symbols := by
  unfold createScope
  dsimp only
  split
  · cases node <;> cases outer <;> rfl
  · rfl

theorem symbols_makeVisible {scope : ScopeId} {name : Encoding} {id : SymbolId} {after : Table}
    {fresh : Bool} (done : table.makeVisible scope name id = .ok (after, fresh)) :
    after.symbols = table.symbols := by
  rcases of_makeVisible done with ⟨_, _, rfl⟩
  rfl

theorem symbols_addNominated {scope target : ScopeId} {after : Table} {able : Bool}
    (done : table.addNominated scope target = .ok (after, able)) :
    after.symbols = table.symbols := by
  rcases of_addNominated done with rfl | ⟨_, _, _, _, rfl⟩ <;> rfl

theorem symbols_addBase {scope base : ScopeId} {after : Table} {fresh : Bool}
    (done : table.addBase scope base = .ok (after, fresh)) : after.symbols = table.symbols := by
  rcases of_addBase done with rfl | ⟨_, _, _, _, _, rfl⟩ <;> rfl

theorem symbols_reparent {moved outer : ScopeId} {after : Table}
    (done : table.reparent moved outer = .ok after) : after.symbols = table.symbols := by
  rcases of_reparent done with rfl | ⟨_, _, moves⟩
  · rfl
  · exact moves.symbols

/-! ## Declaring -/

/-- The index of the next symbol. -/
def nextSymbol (table : Table) : SymbolId := ⟨table.symbols.size⟩

/-- The table with one more symbol, which has no name yet. -/
def withSymbol (table : Table) (symbol : Symbol) : Table :=
  { table with symbols := table.symbols.push symbol }

theorem scope_withSymbol (symbol : Symbol) (id : ScopeId) :
    (table.withSymbol symbol).scope id = table.scope id := rfl

theorem symbol_withSymbol (symbol : Symbol) (id : SymbolId) :
    (table.withSymbol symbol).symbol id =
      if id = table.nextSymbol then .ok symbol else table.symbol id := by
  unfold Table.symbol withSymbol
  dsimp only
  rw [Array.getElem?_push]
  have index : id.index = table.symbols.size ↔ id = table.nextSymbol :=
    @SymbolId.index_inj id table.nextSymbol
  by_cases same : id = table.nextSymbol
  · rw [if_pos same, if_pos (index.mpr same)]
  · rw [if_neg same, if_neg (mt index.mp same)]

/-- A symbol of the table is not the next one. -/
theorem ne_nextSymbol {id : SymbolId} (inside : table.HasSymbol id) : id ≠ table.nextSymbol := by
  rintro rfl
  exact Nat.lt_irrefl _ inside

/-- What a declaration may do: enter a new symbol, merge with one that shares its name, or
nothing. -/
inductive Declares (table : Table) (scope : ScopeId) (symbol : Symbol) :
    Table → Except Refusal SymbolId → Prop where
  | fresh (found : Scope) (read : table.scope scope = .ok found)
      (judged : table.judge symbol (found.named symbol.name) = .ok .fresh) :
      Declares table scope symbol
        ((table.withSymbol symbol).modifyScope scope (·.bind symbol.name table.nextSymbol))
        (.ok table.nextSymbol)
  | again (found : Scope) (id : SymbolId) (read : table.scope scope = .ok found)
      (judged : table.judge symbol (found.named symbol.name) = .ok (.again id)) :
      Declares table scope symbol (table.modifySymbol id (merged · symbol)) (.ok id)
  | refused (found : Scope) (refusal : Refusal) (read : table.scope scope = .ok found)
      (shared : refusal.previous ∈ found.named symbol.name) :
      Declares table scope symbol table (.error refusal)

theorem mem_of_declaredBy? {node : Tree.NodeId} {ids : List SymbolId} {id : SymbolId}
    (found : table.declaredBy? node ids = .ok (some id)) : id ∈ ids := by
  induction ids with
  | nil => cases found
  | cons first rest ih =>
    rcases Outcome.of_bind found with ⟨symbol, read, same⟩
    split at same
    · cases same
      exact List.mem_cons_self ..
    · exact List.mem_cons_of_mem _ (ih same)

theorem mem_of_judge_refused {new : Symbol} {ids : List SymbolId} {refusal : Refusal}
    (judged : table.judge new ids = .ok (.refused refusal)) : refusal.previous ∈ ids := by
  induction ids with
  | nil => cases judged
  | cons first rest ih =>
    rcases Outcome.of_bind judged with ⟨old, read, same⟩
    split at same
    · exact List.mem_cons_of_mem _ (ih same)
    · cases same
    · cases same
      exact List.mem_cons_self ..
    · cases same
      exact List.mem_cons_self ..

/-- A declaration is merged with a symbol that shares its name and that it declares again. -/
theorem of_judge_again {new : Symbol} {ids : List SymbolId} {id : SymbolId}
    (judged : table.judge new ids = .ok (.again id)) :
    id ∈ ids ∧ ∃ old, table.symbol id = .ok old ∧ relation id old new = .merge := by
  induction ids with
  | nil => cases judged
  | cons first rest ih =>
    rcases Outcome.of_bind judged with ⟨old, read, same⟩
    split at same
    · exact ⟨List.mem_cons_of_mem _ (ih same).1, (ih same).2⟩
    · next merges =>
      cases same
      exact ⟨List.mem_cons_self .., old, read, merges⟩
    · cases same
    · cases same

/-- A new symbol may stand beside every symbol that shares its name. -/
theorem of_judge_fresh {new : Symbol} {ids : List SymbolId}
    (judged : table.judge new ids = .ok .fresh) :
    ∀ id ∈ ids, ∃ old, table.symbol id = .ok old ∧ relation id old new = .coexist := by
  induction ids with
  | nil => exact fun id member => absurd member List.not_mem_nil
  | cons first rest ih =>
    rcases Outcome.of_bind judged with ⟨old, read, same⟩
    split at same
    · next coexists => exact List.forall_mem_cons.mpr ⟨⟨old, read, coexists⟩, ih same⟩
    · cases same
    · cases same
    · cases same

theorem declares_of_declare {scope : ScopeId} {symbol : Symbol} {after : Table}
    {answer : Except Refusal SymbolId} (done : table.declare scope symbol = .ok (after, answer)) :
    table.Declares scope symbol after answer := by
  rcases Outcome.of_bind done with ⟨verdict, given, follows⟩
  rcases Outcome.of_bind given with ⟨found, read, given⟩
  rcases Outcome.of_bind given with ⟨earlier, declared, given⟩
  cases earlier with
  | some previous =>
    cases given
    cases follows
    exact .refused found _ read (mem_of_declaredBy? declared)
  | none =>
    cases verdict with
    | fresh =>
      have inside : scope.index < table.scopes.size := hasScope_of_scope read
      simp only [addSymbol, if_pos inside] at follows
      cases follows
      exact .fresh found read given
    | again id =>
      cases follows
      exact .again found id read given
    | refused refusal =>
      cases follows
      exact .refused found refusal read (mem_of_judge_refused given)

/-! ## Judging -/

variable {new : Symbol}

/-- What becomes of a declaration that relates to a symbol in some way and asks no other. -/
def Relation.verdict (id : SymbolId) : Relation → Verdict
  | .coexist => .fresh
  | .merge => .again id
  | .conflict => .refused ⟨id, false⟩
  | .redefinition => .refused ⟨id, true⟩

theorem judge_cons {id : SymbolId} {old : Symbol} (read : table.symbol id = .ok old)
    (rest : List SymbolId) :
    table.judge new (id :: rest) =
      if relation id old new = .coexist then table.judge new rest
      else .ok ((relation id old new).verdict id) := by
  rw [judge, read, Outcome.ok_bind]
  cases relation id old new <;> rfl

theorem judge_eq_fresh_iff {ids : List SymbolId} :
    table.judge new ids = .ok .fresh ↔
      ∀ id ∈ ids, ∃ old, table.symbol id = .ok old ∧ relation id old new = .coexist := by
  refine ⟨of_judge_fresh, fun all => ?_⟩
  induction ids with
  | nil => rfl
  | cons first rest ih =>
    rcases List.forall_mem_cons.mp all with ⟨⟨old, read, coexists⟩, others⟩
    rw [judge_cons read, if_pos coexists, ih others]

/-- A declaration is new, or a symbol that it does not stand beside decides. -/
theorem judge_cases (new : Symbol) {ids : List SymbolId} (there : ∀ id ∈ ids, table.HasSymbol id) :
    table.judge new ids = .ok .fresh ∨
      ∃ id ∈ ids, ∃ old, table.symbol id = .ok old ∧ relation id old new ≠ .coexist ∧
        table.judge new ids = .ok ((relation id old new).verdict id) := by
  induction ids with
  | nil => exact .inl rfl
  | cons first rest ih =>
    rcases List.forall_mem_cons.mp there with ⟨inside, others⟩
    rcases symbol_of_hasSymbol inside with ⟨old, read⟩
    rw [judge_cons read]
    by_cases coexists : relation first old new = .coexist
    · rw [if_pos coexists]
      refine (ih others).imp_right ?_
      rintro ⟨id, among, found⟩
      exact ⟨id, List.mem_cons_of_mem _ among, found⟩
    · rw [if_neg coexists]
      exact .inr ⟨first, List.mem_cons_self .., old, read, coexists, rfl⟩

theorem exists_judge (new : Symbol) {ids : List SymbolId} (there : ∀ id ∈ ids, table.HasSymbol id) :
    ∃ verdict, table.judge new ids = .ok verdict := by
  rcases judge_cases new there with fresh | ⟨id, -, old, -, -, judged⟩
  · exact ⟨_, fresh⟩
  · exact ⟨_, judged⟩

/-- The symbols in front decide, unless the declaration stands beside all of them. -/
theorem judge_append {front back : List SymbolId} {verdict : Verdict}
    (judged : table.judge new front = .ok verdict) :
    table.judge new (front ++ back) =
      if verdict = .fresh then table.judge new back else .ok verdict := by
  induction front with
  | nil =>
    cases judged
    rfl
  | cons first rest ih =>
    rcases Outcome.of_bind judged with ⟨old, read, -⟩
    rw [judge_cons read] at judged
    rw [List.cons_append, judge_cons read]
    split at judged
    · next coexists => rw [if_pos coexists, ih judged]
    · next apart =>
      cases judged
      rw [if_neg apart, if_neg]
      revert apart
      cases relation first old new <;> simp [Relation.verdict]

theorem declaredBy?_eq_none_iff {node : Tree.NodeId} {ids : List SymbolId} :
    table.declaredBy? node ids = .ok none ↔
      ∀ id ∈ ids, ∃ symbol, table.symbol id = .ok symbol ∧ node ∉ symbol.declarations := by
  induction ids with
  | nil => exact iff_of_true rfl fun id member => absurd member List.not_mem_nil
  | cons first rest ih =>
    rw [List.forall_mem_cons, ← ih, declaredBy?]
    cases read : table.symbol first with
    | error fault => exact iff_of_false (fun same => nomatch same) fun all => nomatch all.1
    | ok symbol =>
      rw [Outcome.ok_bind]
      by_cases declares : node ∈ symbol.declarations
      · rw [if_pos (List.contains_iff_mem.mpr declares)]
        refine iff_of_false (fun same => nomatch same) ?_
        rintro ⟨⟨other, same, apart⟩, -⟩
        cases same
        exact apart declares
      · rw [if_neg (mt List.contains_iff_mem.mp declares)]
        exact (and_iff_right ⟨symbol, rfl, declares⟩).symm

/-- The symbols that share a name are asked for their declarations first. -/
theorem exists_declaredBy? (node : Tree.NodeId) {ids : List SymbolId}
    (there : ∀ id ∈ ids, table.HasSymbol id) :
    ∃ earlier, table.declaredBy? node ids = .ok earlier := by
  induction ids with
  | nil => exact ⟨none, rfl⟩
  | cons first rest ih =>
    rcases List.forall_mem_cons.mp there with ⟨inside, others⟩
    rcases symbol_of_hasSymbol inside with ⟨symbol, read⟩
    rw [declaredBy?, read, Outcome.ok_bind]
    split
    · exact ⟨some first, rfl⟩
    · exact ih others

theorem verdict_of_unseen (new : Symbol) {scope : ScopeId} {found : Scope}
    (read : table.scope scope = .ok found)
    (unseen : table.declaredBy? new.node (found.named new.name) = .ok none) :
    table.verdict scope new = table.judge new (found.named new.name) := by
  rw [verdict, read, Outcome.ok_bind]
  dsimp only
  rw [unseen, Outcome.ok_bind]

theorem verdict_of_seen (new : Symbol) {scope : ScopeId} {found : Scope} {previous : SymbolId}
    (read : table.scope scope = .ok found)
    (seen : table.declaredBy? new.node (found.named new.name) = .ok (some previous)) :
    table.verdict scope new = .ok (.refused ⟨previous, false⟩) := by
  rw [verdict, read, Outcome.ok_bind]
  dsimp only
  rw [seen]
  rfl

/-- Where the symbols of a name are all there, whatever is declared has a verdict. -/
theorem exists_verdict (new : Symbol) {scope : ScopeId} {found : Scope}
    (read : table.scope scope = .ok found)
    (there : ∀ id ∈ found.named new.name, table.HasSymbol id) :
    ∃ verdict, table.verdict scope new = .ok verdict := by
  rcases exists_declaredBy? new.node there with ⟨earlier, declared⟩
  cases earlier with
  | some previous => exact ⟨_, verdict_of_seen new read declared⟩
  | none =>
    rw [verdict_of_unseen new read declared]
    exact exists_judge new there

/-- A symbol that is declared again is in the table. -/
theorem hasSymbol_of_verdict {scope : ScopeId} {id : SymbolId}
    (judged : table.verdict scope new = .ok (.again id)) : table.HasSymbol id := by
  rcases Outcome.of_bind judged with ⟨found, read, judged⟩
  rcases Outcome.of_bind judged with ⟨earlier, declared, judged⟩
  cases earlier with
  | some previous => cases judged
  | none =>
    rcases of_judge_again judged with ⟨-, old, there, -⟩
    exact hasSymbol_of_symbol there

/-- The table with a symbol that is entered under its name. -/
def enter (table : Table) (scope : ScopeId) (symbol : Symbol) : Table :=
  (table.withSymbol symbol).modifyScope scope (·.bind symbol.name table.nextSymbol)

theorem scope_enter {scope : ScopeId} {found : Scope} (read : table.scope scope = .ok found)
    (declared : Symbol) :
    (table.enter scope declared).scope scope =
      .ok (found.bind declared.name table.nextSymbol) := by
  unfold enter
  rw [scope_modifyScope, if_pos rfl, scope_withSymbol, read]
  rfl

theorem symbol_enter (table : Table) (scope : ScopeId) (declared : Symbol) :
    (table.enter scope declared).symbol table.nextSymbol = .ok declared := by
  unfold enter
  rw [symbol_modifyScope, symbol_withSymbol, if_pos rfl]

theorem declare_of_fresh {scope : ScopeId} {found : Scope} {declared : Symbol}
    (read : table.scope scope = .ok found)
    (fresh : table.verdict scope declared = .ok .fresh) :
    table.declare scope declared = .ok (table.enter scope declared, .ok table.nextSymbol) := by
  have inside : scope.index < table.scopes.size := hasScope_of_scope read
  unfold declare addSymbol
  rw [fresh, Outcome.ok_bind]
  dsimp only
  rw [if_pos inside]
  rfl

/-- The answer of a declaration. -/
def Verdict.answer (table : Table) : Verdict → Except Refusal SymbolId
  | .fresh => .ok table.nextSymbol
  | .again id => .ok id
  | .refused refusal => .error refusal

theorem declare_of_verdict {scope : ScopeId} {found : Scope} {verdict : Verdict}
    (read : table.scope scope = .ok found) (judged : table.verdict scope new = .ok verdict) :
    ∃ after, table.declare scope new = .ok (after, verdict.answer table) := by
  have inside : scope.index < table.scopes.size := hasScope_of_scope read
  unfold declare
  rw [judged, Outcome.ok_bind]
  cases verdict with
  | fresh =>
    simp only [addSymbol, if_pos inside]
    exact ⟨_, rfl⟩
  | again id => exact ⟨_, rfl⟩
  | refused refusal => exact ⟨_, rfl⟩

/-! ## Names that are kept -/

/-- No name comes in, and every symbol stays what it is in some respect. -/
structure KeepsNames (kept : Symbol → Symbol → Prop) (table after : Table) : Prop where
  symbols : ∀ id symbol, table.symbol id = .ok symbol →
    ∃ later, after.symbol id = .ok later ∧ kept symbol later
  scopes : ∀ id scope, after.scope id = .ok scope →
    scope.bindings = [] ∨ ∃ old, table.scope id = .ok old ∧ scope.bindings = old.bindings

namespace KeepsNames

variable {kept : Symbol → Symbol → Prop} {after : Table}

/-- What is bound behind the operation was bound in front of it. -/
theorem named (keeps : KeepsNames kept table after) {id : ScopeId} {scope : Scope}
    (read : after.scope id = .ok scope) {name : Encoding} {member : SymbolId}
    (among : member ∈ scope.named name) :
    ∃ old, table.scope id = .ok old ∧ scope.named name = old.named name := by
  unfold Scope.named at among ⊢
  rcases keeps.scopes id scope read with empty | ⟨old, before, same⟩
  · rw [empty] at among
    exact absurd among List.not_mem_nil
  · exact ⟨old, before, by rw [same]⟩

theorem modifySymbol (target : SymbolId) {change : Symbol → Symbol}
    (refl : ∀ symbol, kept symbol symbol) (changed : ∀ symbol, kept symbol (change symbol)) :
    KeepsNames kept table (table.modifySymbol target change) where
  symbols id symbol read := by
    rw [symbol_modifySymbol, read]
    split
    · exact ⟨change symbol, rfl, changed symbol⟩
    · exact ⟨symbol, rfl, refl symbol⟩
  scopes _ scope read := .inr ⟨scope, read, rfl⟩

section

variable (refl : ∀ symbol, kept symbol symbol)
include refl

theorem self (table : Table) : KeepsNames kept table table :=
  ⟨fun _ symbol read => ⟨symbol, read, refl symbol⟩, fun _ scope read => .inr ⟨scope, read, rfl⟩⟩

theorem setNodeScope (node : Tree.NodeId) (scope : ScopeId) :
    KeepsNames kept table (table.setNodeScope node scope) :=
  ⟨(self refl table).symbols, (self refl table).scopes⟩

theorem modifyScope (target : ScopeId) {change : Scope → Scope}
    (same : ∀ scope, (change scope).bindings = scope.bindings) :
    KeepsNames kept table (table.modifyScope target change) where
  symbols _ symbol read := ⟨symbol, read, refl symbol⟩
  scopes id scope read := by
    rcases of_scope_modifyScope read with ⟨old, before, rfl | ⟨_, rfl⟩⟩
    · exact .inr ⟨scope, before, rfl⟩
    · exact .inr ⟨old, before, same old⟩

theorem withSymbol (symbol : Symbol) : KeepsNames kept table (table.withSymbol symbol) where
  symbols id old read := by
    rw [symbol_withSymbol, if_neg (ne_nextSymbol (hasSymbol_of_symbol read))]
    exact ⟨old, read, refl old⟩
  scopes _ scope read := .inr ⟨scope, read, rfl⟩

theorem createScope (region : Region) (outer : Option ScopeId) (node : Option Tree.NodeId) :
    KeepsNames kept table (table.createScope region outer node).1 where
  symbols _ symbol read := ⟨symbol, (symbol_createScope ..).trans read, refl symbol⟩
  scopes _ _ := bindings_createScope

theorem reparent {scope outer : ScopeId} (done : table.reparent scope outer = .ok after) :
    KeepsNames kept table after := by
  rcases of_reparent done with rfl | ⟨found, _, moves⟩
  · exact self refl _
  · refine ⟨fun id symbol read => ?_, fun id moved later => .inr ?_⟩
    · exact ⟨symbol, (moves.symbol id).trans read, refl symbol⟩
    · rcases moves.of_scope later with ⟨old, before, rfl⟩
      exact ⟨old, before, rfl⟩

theorem addNominated {scope target : ScopeId} {able : Bool}
    (done : table.addNominated scope target = .ok (after, able)) : KeepsNames kept table after := by
  rcases of_addNominated done with rfl | ⟨found, region, read, nominates, rfl⟩
  · exact self refl _
  · exact modifyScope refl _ fun _ => rfl

theorem addBase {scope base : ScopeId} {fresh : Bool}
    (done : table.addBase scope base = .ok (after, fresh)) : KeepsNames kept table after := by
  rcases of_addBase done with rfl | ⟨other, found, region, read, has, rfl⟩
  · exact self refl _
  · exact modifyScope refl _ fun _ => rfl

end

end KeepsNames

end Table
end CppNames
