import CppNames.Lookup.Find
import Mathlib.Data.List.Nodup

namespace CppNames
namespace Table

/-!
# Sound tables

The links of a table are indices.  A table is *sound* if every index that it keeps names
something in it, and no name of a scope lists a symbol twice.  Nothing is asked of the
shape of the links: they may run in circles, a namespace may nominate itself, and a base
may be reached in several ways.

On a sound table a scope's own names can always be read.  `members` is what is read there,
as a total function, and `linked` is what a scope links to.  Both are what the search
theorems speak of.
-/

/-- An index that names a scope of the table. -/
def HasScope (table : Table) (id : ScopeId) : Prop := id.index < table.scopes.size

/-- An index that names a symbol of the table. -/
def HasSymbol (table : Table) (id : SymbolId) : Prop := id.index < table.symbols.size

instance (table : Table) (id : ScopeId) : Decidable (table.HasScope id) :=
  inferInstanceAs (Decidable (_ < _))

instance (table : Table) (id : SymbolId) : Decidable (table.HasSymbol id) :=
  inferInstanceAs (Decidable (_ < _))

end Table

/-- The scope of the parameters of a function body. -/
def Region.parameters? : Region → Option ScopeId
  | .functionBody _ _ parameters _ => parameters
  | _ => none

/-- The scopes that a region names: the namespaces that it nominates, its bases and its
parameters. -/
def Region.named? (region : Region) : List ScopeId :=
  region.nominated ++ region.bases ++ region.parameters?.toList

/-- A scope whose indices all name something in a table. -/
structure Scope.SoundIn (table : Table) (scope : Scope) : Prop where
  outer : ∀ id ∈ scope.outer.toList, table.HasScope id
  region : ∀ id ∈ scope.region.named?, table.HasScope id
  symbols : ∀ binding ∈ scope.bindings, ∀ id ∈ binding.symbols, table.HasSymbol id
  distinct : ∀ binding ∈ scope.bindings, binding.symbols.Nodup

instance (table : Table) (scope : Scope) : Decidable (scope.SoundIn table) :=
  decidable_of_iff
    ((∀ id ∈ scope.outer.toList, table.HasScope id) ∧
      (∀ id ∈ scope.region.named?, table.HasScope id) ∧
      (∀ binding ∈ scope.bindings, ∀ id ∈ binding.symbols, table.HasSymbol id) ∧
      ∀ binding ∈ scope.bindings, binding.symbols.Nodup)
    ⟨fun ⟨outer, region, symbols, distinct⟩ => ⟨outer, region, symbols, distinct⟩,
      fun sound => ⟨sound.outer, sound.region, sound.symbols, sound.distinct⟩⟩

namespace Table

/-- A table whose indices all name something in it. -/
def Sound (table : Table) : Prop := ∀ scope ∈ table.scopes.toList, scope.SoundIn table

instance (table : Table) : Decidable table.Sound :=
  inferInstanceAs (Decidable (∀ scope ∈ table.scopes.toList, scope.SoundIn table))

variable {table : Table}

/-! ## Reading scopes -/

theorem scope_of_hasScope {id : ScopeId} (inside : table.HasScope id) :
    ∃ scope, table.scope id = .ok scope := by
  refine ⟨table.scopes[id.index], ?_⟩
  simp only [Table.scope, Array.getElem?_eq_getElem inside]

theorem scope_of_outside {id : ScopeId} (outside : ¬ table.HasScope id) :
    table.scope id = .error .dangling := by
  unfold Table.scope
  rw [Array.getElem?_eq_none (Nat.le_of_not_lt outside)]

theorem symbol_of_hasSymbol {id : SymbolId} (inside : table.HasSymbol id) :
    ∃ symbol, table.symbol id = .ok symbol := by
  refine ⟨table.symbols[id.index], ?_⟩
  simp only [Table.symbol, Array.getElem?_eq_getElem inside]

theorem scope_eq_ok_iff {id : ScopeId} {scope : Scope} :
    table.scope id = .ok scope ↔ table.scopes[id.index]? = some scope := by
  unfold Table.scope
  cases table.scopes[id.index]? <;> simp

theorem hasScope_of_scope {id : ScopeId} {scope : Scope} (read : table.scope id = .ok scope) :
    table.HasScope id :=
  (Array.getElem?_eq_some_iff.mp (scope_eq_ok_iff.mp read)).1

theorem Sound.scope (sound : table.Sound) {id : ScopeId} {scope : Scope}
    (read : table.scope id = .ok scope) : scope.SoundIn table := by
  apply sound
  have member := Array.mem_of_getElem? (scope_eq_ok_iff.mp read)
  exact Array.mem_toList_iff.mpr member

/-- The scopes that a kind of link leads to from a scope. -/
def linked (table : Table) (links : Region → List ScopeId) (id : ScopeId) : List ScopeId :=
  match table.scope id with
  | .ok scope => links scope.region
  | .error _ => []

theorem linked_of_scope {id : ScopeId} {scope : Scope} (read : table.scope id = .ok scope)
    (links : Region → List ScopeId) : table.linked links id = links scope.region := by
  simp only [linked, read]

/-- Links that a sound table vouches for. -/
def Vouched (links : Region → List ScopeId) : Prop :=
  ∀ region, ∀ id ∈ links region, id ∈ region.named?

theorem vouched_nominated : Vouched Region.nominated := by
  intro region id member
  exact List.mem_append_left _ (List.mem_append_left _ member)

theorem vouched_bases : Vouched Region.bases := by
  intro region id member
  exact List.mem_append_left _ (List.mem_append_right _ member)

theorem Sound.linked (sound : table.Sound) {links : Region → List ScopeId}
    (vouched : Vouched links) {id target : ScopeId} (member : target ∈ table.linked links id) :
    table.HasScope target := by
  unfold Table.linked at member
  split at member
  · next scope read => exact (sound.scope read).region target (vouched _ _ member)
  · cases member

/-! ## Reading a scope's own names -/

/-- Whether the kind of a symbol passes a test. -/
def passes (table : Table) (test : SymbolKind → Bool) (id : SymbolId) : Bool :=
  match table.symbol id with
  | .ok symbol => test symbol.kind
  | .error _ => false

private theorem filterAuxM_eq (test : SymbolKind → Bool) (ids kept : List SymbolId)
    (inside : ∀ id ∈ ids, table.HasSymbol id) :
    List.filterAuxM (fun id => return test (← table.symbol id).kind) ids kept =
      (.ok ((ids.filter (table.passes test)).reverse ++ kept) : Outcome (List SymbolId)) := by
  induction ids generalizing kept with
  | nil => rfl
  | cons first rest ih =>
    rcases symbol_of_hasSymbol (inside first (List.mem_cons_self ..)) with ⟨symbol, read⟩
    have others := fun kept => ih kept fun id member => inside id (List.mem_cons_of_mem _ member)
    have decided : table.passes test first = test symbol.kind := by simp only [passes, read]
    simp only [List.filterAuxM, read, List.filter_cons, decided, bind, Except.bind, pure,
      Except.pure]
    cases test symbol.kind with
    | false => exact others kept
    | true =>
      refine (others (first :: kept)).trans ?_
      simp

theorem ofKind_eq_filter (test : SymbolKind → Bool) (ids : List SymbolId)
    (inside : ∀ id ∈ ids, table.HasSymbol id) :
    table.ofKind test ids = .ok (ids.filter (table.passes test)) := by
  unfold ofKind List.filterM
  rw [filterAuxM_eq test ids [] inside]
  simp only [bind, Except.bind, pure, Except.pure, List.append_nil, List.reverse_reverse]

/-- Whether a lookup sees a symbol that shares its name with some others.  Without a particular
purpose, types are seen only among themselves. -/
def unhidden (table : Table) (context : LookupContext) (ids : List SymbolId) (id : SymbolId) : Bool :=
  if context.scope then table.passes (!·.isValue) id
  else if context.elaborated then table.passes (·.isElaborated) id
  else if context.type then table.passes (·.isTypeName) id
  else table.passes (!·.isTypeName) id || ids.all (!table.passes (!·.isTypeName) ·)

/-- Without a particular purpose, a symbol is seen that is alone with its name. -/
theorem unhidden_alone (table : Table) (id : SymbolId) : table.unhidden {} [id] id = true := by
  simp [unhidden]

theorem visible_eq_filter {ids : List SymbolId} (inside : ∀ id ∈ ids, table.HasSymbol id)
    (context : LookupContext) :
    table.visible ids context = .ok (ids.filter (table.unhidden context ids)) := by
  have kinds : ∀ test, table.ofKind test ids = .ok (ids.filter (table.passes test)) :=
    fun test => ofKind_eq_filter test _ inside
  unfold visible unhidden
  simp only [kinds]
  split
  · rfl
  split
  · rfl
  split
  · rfl
  · simp only [bind, Except.bind, pure, Except.pure]
    have empty : (ids.filter (table.passes (!·.isTypeName))).isEmpty =
        ids.all (!table.passes (!·.isTypeName) ·) := by
      rw [Bool.eq_iff_iff, List.isEmpty_iff, List.filter_eq_nil_iff, List.all_eq_true]
      simp only [Bool.not_eq_true, Bool.not_eq_true']
    rw [empty]
    cases ids.all (!table.passes (!·.isTypeName) ·) <;> simp

theorem Sound.named (sound : table.Sound) {id : ScopeId} {scope : Scope}
    (read : table.scope id = .ok scope) (name : Encoding) :
    (∀ symbol ∈ scope.named name, table.HasSymbol symbol) ∧ (scope.named name).Nodup := by
  have links := sound.scope read
  unfold Scope.named
  cases found : scope.bindings.find? (·.name == name) with
  | none => simp
  | some binding =>
    have member := List.mem_of_find?_eq_some found
    exact ⟨links.symbols binding member, links.distinct binding member⟩

/-- The symbols with a name in a scope itself that a lookup sees. -/
def members (table : Table) (name : Encoding) (context : LookupContext) (id : ScopeId) :
    List SymbolId :=
  match table.find id name context with
  | .ok found => found.ids
  | .error _ => []

theorem Sound.members_eq_filter (sound : table.Sound) {id : ScopeId} {scope : Scope}
    (read : table.scope id = .ok scope) (name : Encoding) (context : LookupContext) :
    table.members name context id =
      (scope.named name).filter (table.unhidden context (scope.named name)) := by
  simp only [members, Table.find, read, visible_eq_filter (sound.named read name).1, bind,
    Except.bind, pure, Except.pure]

/-- On a sound table the own names of a scope can be read, and no symbol is read twice. -/
theorem Sound.find (sound : table.Sound) {id : ScopeId} (inside : table.HasScope id)
    (name : Encoding) (context : LookupContext) :
    table.find id name context = .ok ⟨table.members name context id, false⟩ ∧
      (table.members name context id).Nodup := by
  rcases scope_of_hasScope inside with ⟨scope, read⟩
  rcases sound.named read name with ⟨symbols, distinct⟩
  rw [sound.members_eq_filter read]
  refine ⟨?_, distinct.filter _⟩
  simp only [Table.find, read, visible_eq_filter symbols, bind, Except.bind, pure, Except.pure]

/-! ## Scopes not yet visited -/

/-- The number of scopes of the table that are not among some scopes. -/
def unvisited (table : Table) (visited : List ScopeId) : Nat :=
  table.scopeIds.countP (· ∉ visited)

theorem mem_scopeIds {id : ScopeId} : id ∈ table.scopeIds ↔ table.HasScope id := by
  cases id
  simp [scopeIds, HasScope]

theorem unvisited_le_size (visited : List ScopeId) : table.unvisited visited ≤ table.scopes.size := by
  have short : table.unvisited visited ≤ table.scopeIds.length := List.countP_le_length
  simpa [scopeIds] using short

theorem unvisited_le {early late : List ScopeId} (kept : ∀ id ∈ early, id ∈ late) :
    table.unvisited late ≤ table.unvisited early := by
  apply List.countP_mono_left
  intro id _ fresh
  simp only [decide_eq_true_eq] at fresh ⊢
  exact fun old => fresh (kept id old)

theorem unvisited_cons_lt {visited : List ScopeId} {id : ScopeId} (inside : table.HasScope id)
    (fresh : id ∉ visited) : table.unvisited (id :: visited) < table.unvisited visited := by
  have positive : 0 < table.scopeIds.countP (fun other => decide (other = id)) :=
    List.countP_pos_iff.mpr ⟨id, mem_scopeIds.mpr inside, by simp⟩
  have split : table.unvisited visited = table.scopeIds.countP (fun other => decide (other = id)) +
      table.unvisited (id :: visited) := by
    unfold unvisited
    rw [List.countP_eq_countP_filter_add table.scopeIds _ (fun other => decide (other = id)),
      List.countP_filter, List.countP_filter]
    congr 1
    · apply List.countP_congr
      intro other _
      by_cases same : other = id <;> simp [same, fresh]
    · apply List.countP_congr
      intro other _
      by_cases same : other = id <;> simp [same]
  omega

end Table
end CppNames
