import CppNames.Proofs.Binding.Conserved
import CppNames.Proofs.Lookup.Depth

namespace CppNames

/-!
# Lookups that a declaration leaves alone

A lookup goes outwards, sideways and upwards, so almost every scope of a table may be searched for
almost every name.  Yet it reads little: the links of the scopes and, among their names, only the
one that is looked up, with the symbols that share it and what kinds of symbols these are, because
objects and functions hide types.  `LooksAlike` says that two tables are the same in all this, and
then every lookup of the name does the same in both, whether it finds something or ends otherwise.

A declaration changes no link.  It adds a symbol under one name in one scope, or it changes a symbol
that was there.  The changed symbol may be visible in many scopes and, through using-declarations,
under any name.  It stays visible where it was, and what becomes known of it never changes which
lookups see it: a symbol that only announced a variable may turn out to be a constant, but not a
type.
-/

/-! ## What a lookup reads -/

/-- Two kinds of symbols between which no lookup makes a difference. -/
structure SymbolKind.SeenAlike (old new : SymbolKind) : Prop where
  isValue : new.isValue = old.isValue
  isElaborated : new.isElaborated = old.isElaborated
  isTypeName : new.isTypeName = old.isTypeName

theorem SymbolKind.SeenAlike.refl (kind : SymbolKind) : kind.SeenAlike kind := ⟨rfl, rfl, rfl⟩

/-- What becomes known of a symbol does not change which lookups see it. -/
theorem SymbolKind.Learns.seenAlike {before after : SymbolKind} (learns : before.Learns after) :
    before.SeenAlike after := by
  cases learns <;> exact ⟨rfl, rfl, rfl⟩

/-- Two scopes with the same links and the same symbols of a name. -/
structure Scope.LooksAlike (name : Encoding) (scope later : Scope) : Prop where
  region : later.region = scope.region
  outer : later.outer = scope.outer
  named : later.named name = scope.named name

theorem Scope.LooksAlike.refl (name : Encoding) (scope : Scope) : scope.LooksAlike name scope :=
  ⟨rfl, rfl, rfl⟩

/-- Two symbols of which a lookup sees the one where it sees the other. -/
def Symbol.SeenAlike (old new : Symbol) : Prop := old.kind.SeenAlike new.kind

namespace Table

/-- Two tables that are the same in all that a lookup of a name reads. -/
structure LooksAlike (name : Encoding) (table after : Table) : Prop where
  searchesBases : after.searchesBases = table.searchesBases
  size : after.scopes.size = table.scopes.size
  scope : ∀ id scope, table.scope id = .ok scope →
    ∃ later, after.scope id = .ok later ∧ scope.LooksAlike name later
  symbol : ∀ id scope, table.scope id = .ok scope → ∀ member ∈ scope.named name,
    ∃ old new, table.symbol member = .ok old ∧ after.symbol member = .ok new ∧ old.SeenAlike new

namespace LooksAlike

variable {name : Encoding} {table after : Table} {context : LookupContext}

/-- A scope is in both tables, with the same links, or in neither. -/
theorem scope_cases (alike : LooksAlike name table after) (id : ScopeId) :
    table.scope id = .error .dangling ∧ after.scope id = .error .dangling ∨
      ∃ scope later, table.scope id = .ok scope ∧ after.scope id = .ok later ∧
        scope.LooksAlike name later := by
  by_cases inside : table.HasScope id
  · rcases scope_of_hasScope inside with ⟨scope, read⟩
    rcases alike.scope id scope read with ⟨later, readLater, same⟩
    exact .inr ⟨scope, later, read, readLater, same⟩
  · have outside : ¬ after.HasScope id := by
      unfold HasScope at inside ⊢
      rwa [alike.size]
    exact .inl ⟨scope_of_outside inside, scope_of_outside outside⟩

/-- The hiding rules have the same outcome. -/
theorem visible (alike : LooksAlike name table after) {id : ScopeId} {scope : Scope}
    (read : table.scope id = .ok scope) :
    after.visible (scope.named name) context = table.visible (scope.named name) context := by
  have there : ∀ member ∈ scope.named name, table.HasSymbol member ∧ after.HasSymbol member := by
    intro member among
    rcases alike.symbol id scope read member among with ⟨old, new, readOld, readNew, -⟩
    exact ⟨hasSymbol_of_symbol readOld, hasSymbol_of_symbol readNew⟩
  have kinds : ∀ test : SymbolKind → Bool, (∀ {old new}, old.SeenAlike new → test new = test old) →
      after.ofKind test (scope.named name) = table.ofKind test (scope.named name) := by
    intro test same
    rw [ofKind_eq_filter test _ fun member among => (there member among).2,
      ofKind_eq_filter test _ fun member among => (there member among).1]
    refine congrArg Except.ok (List.filter_congr fun member among => ?_)
    rcases alike.symbol id scope read member among with ⟨old, new, readOld, readNew, seen⟩
    simp only [passes, readOld, readNew, same seen]
  unfold Table.visible
  rw [kinds (!·.isValue) fun seen => congrArg (!·) seen.isValue,
    kinds _ fun seen => seen.isElaborated, kinds _ fun seen => seen.isTypeName,
    kinds (!·.isTypeName) fun seen => congrArg (!·) seen.isTypeName]

theorem find (alike : LooksAlike name table after) (id : ScopeId) (context : LookupContext) :
    after.find id name context = table.find id name context := by
  unfold Table.find
  rcases alike.scope_cases id with ⟨none, noneLater⟩ | ⟨scope, later, read, readLater, same⟩
  · rw [none, noneLater]
    rfl
  · rw [read, readLater, Outcome.ok_bind, Outcome.ok_bind, same.named]
    dsimp only
    rw [alike.visible read]

/-! ## Searches -/

theorem searchWithin (alike : LooksAlike name table after) (links : Links)
    (context : LookupContext) (steps : Nat) :
    after.searchWithin links name context steps = table.searchWithin links name context steps := by
  induction steps with
  | zero => rfl
  | succ steps ih =>
    funext before id
    unfold Table.searchWithin
    rw [alike.find, ih]
    rcases alike.scope_cases id with ⟨none, noneLater⟩ | ⟨scope, later, read, readLater, same⟩
    · rw [none, noneLater]
    · simp only [read, readLater, Outcome.ok_bind, same.region]

theorem searchAll (alike : LooksAlike name table after) (links : Links) (context : LookupContext)
    (visited scopes : List ScopeId) :
    after.searchAll links name context visited scopes =
      table.searchAll links name context visited scopes := by
  unfold Table.searchAll
  simp only [alike.size, alike.searchWithin]

theorem inheritedNested (alike : LooksAlike name table after) (levels : Nat) :
    after.inheritedNested name levels = table.inheritedNested name levels := by
  unfold Table.inheritedNested
  simp only [alike.searchesBases, alike.searchWithin]

theorem offeredOver (alike : LooksAlike name table after) (onward : Onward) (upward : Upward)
    (context : LookupContext) (id : ScopeId) (region : Region) (own : SymbolSet)
    (searched : List ScopeId) :
    after.offeredOver name onward upward context id region own searched =
      table.offeredOver name onward upward context id region own searched := by
  cases region with
  | functionBody inner declaration parameters nominated =>
    simp only [Table.offeredOver, alike.find]
  | _ => rfl

theorem level (alike : LooksAlike name table after) (onward : Onward) (upward : Upward) :
    after.level name onward upward = table.level name onward upward := by
  funext context id searched
  rcases alike.scope_cases id with ⟨none, noneLater⟩ | ⟨scope, later, read, readLater, same⟩
  · unfold Table.level
    rw [none, noneLater]
    rfl
  · have outwards : outwardsOver onward context later = outwardsOver onward context scope := by
      unfold outwardsOver stays
      rw [same.outer, same.region]
    rw [level_of_scope onward upward context searched read,
      level_of_scope onward upward context searched readLater, alike.find, same.region, outwards]
    simp only [alike.offeredOver]

theorem unqualifiedWithin (alike : LooksAlike name table after) (steps : Nat) :
    after.unqualifiedWithin name steps = table.unqualifiedWithin name steps := by
  induction steps with
  | zero => rfl
  | succ steps ih =>
    funext context id searched
    rw [unqualifiedWithin_eq_level, unqualifiedWithin_eq_level, ih, alike.size,
      alike.inheritedNested, alike.level]

/-- An unqualified lookup of the name does the same in both tables. -/
theorem lookupUnqualified (alike : LooksAlike name table after) (id : ScopeId)
    (context : LookupContext) :
    after.lookupUnqualified id name context = table.lookupUnqualified id name context := by
  unfold Table.lookupUnqualified searchBound
  rw [alike.size, alike.unqualifiedWithin]

/-- A qualified lookup of the name does the same in both tables. -/
theorem lookupQualified (alike : LooksAlike name table after) (id : ScopeId)
    (context : LookupContext) :
    after.lookupQualified id name context = table.lookupQualified id name context := by
  unfold Table.lookupQualified
  rcases alike.scope_cases id with ⟨none, noneLater⟩ | ⟨scope, later, read, readLater, same⟩
  · rw [none, noneLater]
    rfl
  · rw [read, readLater, Outcome.ok_bind, Outcome.ok_bind, same.region]
    simp only [alike.find, alike.searchAll]

end LooksAlike

/-! ## What a declaration changes -/

variable {name : Encoding} {table after : Table} {scope : ScopeId} {symbol : Symbol}

/-- A new symbol does not show under another name. -/
theorem NamesSymbols.looksAlike_enter (names : table.NamesSymbols) (other : name ≠ symbol.name) :
    LooksAlike name table (table.enter scope symbol) where
  searchesBases := rfl
  size := Array.size_modify
  scope id found read := by
    unfold Table.enter
    rw [scope_modifyScope, scope_withSymbol, read]
    split
    · exact ⟨_, rfl, rfl, rfl, (Scope.named_bind ..).trans (if_neg other.symm)⟩
    · exact ⟨found, rfl, .refl name found⟩
  symbol id found read member among := by
    have inside := names id found read name member among
    rcases symbol_of_hasSymbol inside with ⟨old, there⟩
    refine ⟨old, old, there, ?_, .refl old.kind⟩
    unfold Table.enter
    rw [symbol_modifyScope, symbol_withSymbol, if_neg (ne_nextSymbol inside), there]

/-- A symbol that is declared again looks as before, under whatever names it is visible. -/
theorem NamesSymbols.looksAlike_merged (names : table.NamesSymbols) (id : SymbolId)
    (symbol : Symbol) : LooksAlike name table (table.modifySymbol id (merged · symbol)) where
  searchesBases := rfl
  size := rfl
  scope _ found read := ⟨found, read, .refl name found⟩
  symbol scope found read member among := by
    rcases symbol_of_hasSymbol (names scope found read name member among) with ⟨old, there⟩
    rw [symbol_modifySymbol, there]
    split
    · exact ⟨old, _, rfl, rfl, (gains_merged old symbol).kind.seenAlike⟩
    · exact ⟨old, old, rfl, rfl, .refl old.kind⟩

/-- A declaration leaves everything as it is that the lookup of another name reads. -/
theorem NamesSymbols.looksAlike (names : table.NamesSymbols) {answer : Except Refusal SymbolId}
    (done : table.Declares scope symbol after answer) (other : name ≠ symbol.name) :
    LooksAlike name table after := by
  cases done with
  | fresh found read judged => exact names.looksAlike_enter other
  | again found id read judged => exact names.looksAlike_merged id symbol
  | refused found refusal read shared =>
    refine ⟨rfl, rfl, fun _ found read => ⟨found, read, .refl name found⟩, ?_⟩
    intro id found read member among
    rcases symbol_of_hasSymbol (names id found read name member among) with ⟨old, there⟩
    exact ⟨old, old, there, there, .refl old.kind⟩

/-- Declaring one name does not disturb the lookups of others.  In a table that any operations made,
a declaration in one of its scopes has an answer, and whatever it is, from every scope and in every
context another name is looked up with the same outcome behind the declaration as in front of it:
the same symbols in the same order. -/
theorem declare_keeps_lookups (made : table.Made) (inside : table.HasScope scope)
    (symbol : Symbol) :
    ∃ after answer, table.declare scope symbol = .ok (after, answer) ∧
      ∀ name, name ≠ symbol.name → ∀ start context,
        after.lookupUnqualified start name context = table.lookupUnqualified start name context ∧
        after.lookupQualified start name context = table.lookupQualified start name context := by
  have names := made.namesSymbols
  rcases names.exists_declare inside symbol with ⟨after, answer, done⟩
  refine ⟨after, answer, done, fun name other start context => ?_⟩
  have alike : LooksAlike name table after := names.looksAlike (declares_of_declare done) other
  exact ⟨alike.lookupUnqualified start context, alike.lookupQualified start context⟩

/-- The declarations of `extern int x; int y; int x;` in a namespace. -/
def announcedInside : Symbol :=
  .ofDeclaration ⟨[0x81, 0x78]⟩ (.object false) ⟨[0x69]⟩ ⟨1⟩ 1 (some ⟨26, 1⟩)

@[inherit_doc announcedInside]
def besideInside : Symbol :=
  .ofDeclaration ⟨[0x81, 0x79]⟩ (.object true) ⟨[0x69]⟩ ⟨1⟩ 2 (some ⟨33, 1⟩)

@[inherit_doc announcedInside]
def definedInside : Symbol :=
  .ofDeclaration ⟨[0x81, 0x78]⟩ (.object true) ⟨[0x69]⟩ ⟨1⟩ 3 (some ⟨40, 1⟩)

/-- The first two of them, where the global namespace uses the variable `x` and nominates the
namespace. -/
def usedAndNominated : Table where
  scopes := #[⟨.namespaceBody .empty [] [⟨1⟩], none, [⟨1⟩], [⟨⟨[0x81, 0x78]⟩, [⟨0⟩]⟩]⟩,
    ⟨.namespaceBody ⟨[0x81, 0x41]⟩ [] [], some global, [],
      [⟨⟨[0x81, 0x78]⟩, [⟨0⟩]⟩, ⟨⟨[0x81, 0x79]⟩, [⟨1⟩]⟩]⟩]
  symbols := #[announcedInside, besideInside]
  nodeScopes := []
  searchesBases := true

theorem usedAndNominated_made : usedAndNominated.Made := by
  have namespaced :=
    Made.initial.createScope (.namespaceBody ⟨[0x81, 0x41]⟩ [] []) (some global) none
  have announced := namespaced.addSymbol ⟨1⟩ announcedInside
  have used := announced.makeVisible (Nat.lt_succ_self 0)
    (rfl : Table.makeVisible _ global ⟨[0x81, 0x78]⟩ ⟨0⟩ = _)
  have beside := used.declare (rfl : Table.declare _ ⟨1⟩ besideInside = _)
  exact beside.addNominated (rfl : Table.addNominated _ global ⟨1⟩ = _)

/-- The definition of `x` is merged with the symbol that two scopes have.  The other variable is
found as before, through the using-directive and behind the name of the namespace. -/
theorem declare_keeps_lookups_usedVariable :
    usedAndNominated.Made ∧ usedAndNominated.HasScope ⟨1⟩ ∧
      ∃ after, usedAndNominated.declare ⟨1⟩ definedInside = .ok (after, .ok ⟨0⟩) ∧
        after.lookupUnqualified global ⟨[0x81, 0x79]⟩ {} = .ok ⟨[⟨1⟩], false⟩ ∧
        after.lookupQualified ⟨1⟩ ⟨[0x81, 0x79]⟩ {} = .ok ⟨[⟨1⟩], false⟩ := by
  have inside : usedAndNominated.HasScope ⟨1⟩ := Nat.lt_succ_self 1
  rcases declare_keeps_lookups usedAndNominated_made inside definedInside with
    ⟨after, answer, done, kept⟩
  have merges : usedAndNominated.declare ⟨1⟩ definedInside =
      .ok (usedAndNominated.modifySymbol ⟨0⟩ (merged · definedInside), .ok ⟨0⟩) := rfl
  cases merges.symm.trans done
  have other : (⟨[0x81, 0x79]⟩ : Encoding) ≠ definedInside.name := by decide
  have found : usedAndNominated.lookupUnqualified global ⟨[0x81, 0x79]⟩ {} =
      .ok ⟨[⟨1⟩], false⟩ := rfl
  have member : usedAndNominated.lookupQualified ⟨1⟩ ⟨[0x81, 0x79]⟩ {} =
      .ok ⟨[⟨1⟩], false⟩ := rfl
  exact ⟨usedAndNominated_made, inside, _, merges, (kept _ other global {}).1.trans found,
    (kept _ other ⟨1⟩ {}).2.trans member⟩

end Table
end CppNames
