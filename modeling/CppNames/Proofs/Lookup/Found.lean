import CppNames.Lookup.Site
import CppNames.Proofs.Lookup.Outward
import CppNames.Proofs.Table.Consistent
import CppNames.Proofs.Table.Housed

namespace CppNames
namespace Table

/-!
# What a lookup hands out

Whatever a lookup finds is in the table, even where the links between scopes run in circles or
lead nowhere: a symbol is read before it is handed out, and a lookup that cannot read one has no
answer.  On a consistent table a qualifier denotes a namespace or a class, and so never a
template header.
-/

variable {table : Table} {name : Encoding} {context : LookupContext}

/-- Symbols that are all in the table. -/
def AllThere (table : Table) (ids : List SymbolId) : Prop := ∀ id ∈ ids, table.HasSymbol id

theorem AllThere.nil : table.AllThere [] := fun _ member => absurd member List.not_mem_nil

theorem AllThere.union {left right : SymbolSet} (first : table.AllThere left.ids)
    (second : table.AllThere right.ids) : table.AllThere (left.union right).ids := by
  intro id member
  rcases (SymbolSet.mem_union left right id).mp member with there | there
  · exact first id there
  · exact second id there

/-- What every step of a fold keeps holds of its result. -/
theorem foldlM_keeps {α β : Type} (property : β → Prop) {step : β → α → Outcome β}
    {items : List α} (all : ∀ before item after, item ∈ items → property before →
      step before item = .ok after → property after) {start result : β}
    (holds : property start) (ran : items.foldlM step start = .ok result) : property result := by
  induction items generalizing start with
  | nil =>
    cases ran
    exact holds
  | cons first rest ih =>
    rw [List.foldlM_cons] at ran
    rcases Outcome.of_bind ran with ⟨between, middle, ran⟩
    refine ih (fun before item after member => all before item after
      (List.mem_cons_of_mem _ member)) ?_ ran
    exact all start first between (List.mem_cons_self ..) holds middle

/-! ## One scope -/

private theorem allThere_of_filterAuxM {test : SymbolKind → Bool} {ids kept result : List SymbolId}
    (ran : List.filterAuxM (fun id => return test (← table.symbol id).kind) ids kept =
      (.ok result : Outcome (List SymbolId))) : table.AllThere ids := by
  induction ids generalizing kept with
  | nil => exact .nil
  | cons first rest ih =>
    rcases Outcome.of_bind ran with ⟨_, tested, ran⟩
    rcases Outcome.of_bind tested with ⟨symbol, read, _⟩
    exact List.forall_mem_cons.mpr ⟨hasSymbol_of_symbol read, ih ran⟩

/-- Filtering by kind reads every symbol. -/
theorem allThere_of_ofKind {test : SymbolKind → Bool} {ids kept : List SymbolId}
    (ran : table.ofKind test ids = .ok kept) : table.AllThere ids ∧ table.AllThere kept := by
  have all : table.AllThere ids := by
    rcases Outcome.of_bind ran with ⟨_, filtered, _⟩
    exact allThere_of_filterAuxM filtered
  refine ⟨all, ?_⟩
  rw [ofKind_eq_filter test ids all] at ran
  cases ran
  exact fun id member => all id (List.mem_of_mem_filter member)

theorem allThere_of_visible {ids seen : List SymbolId}
    (ran : table.visible ids context = .ok seen) : table.AllThere seen := by
  unfold visible at ran
  split at ran
  · exact (allThere_of_ofKind ran).2
  split at ran
  · exact (allThere_of_ofKind ran).2
  split at ran
  · exact (allThere_of_ofKind ran).2
  · rcases Outcome.of_bind ran with ⟨others, filtered, same⟩
    cases same
    split
    · exact (allThere_of_ofKind filtered).1
    · exact (allThere_of_ofKind filtered).2

theorem allThere_of_find {id : ScopeId} {found : SymbolSet}
    (ran : table.find id name context = .ok found) : table.AllThere found.ids := by
  rcases Outcome.of_bind ran with ⟨scope, _, ran⟩
  rcases Outcome.of_bind ran with ⟨seen, shown, same⟩
  cases same
  exact allThere_of_visible shown

/-! ## Members -/

theorem allThere_of_searchWithin {links : Links} (steps : Nat) {before after : Search}
    {scope : ScopeId} (holds : table.AllThere before.found.ids)
    (ran : table.searchWithin links name context steps before scope = .ok after) :
    table.AllThere after.found.ids := by
  induction steps generalizing before after scope with
  | zero => cases ran
  | succ steps ih =>
    unfold searchWithin at ran
    split at ran
    · cases ran
      exact holds
    · rcases Outcome.of_bind ran with ⟨own, found, ran⟩
      split at ran
      · rcases Outcome.of_bind ran with ⟨here, _, ran⟩
        rcases Outcome.of_bind ran with ⟨behind, folded, same⟩
        cases same
        exact holds.union (foldlM_keeps (fun search => table.AllThere search.found.ids)
          (fun _ _ _ _ before ran => ih before ran) .nil folded)
      · cases ran
        exact holds.union (allThere_of_find found)

theorem allThere_of_searchAll {links : Links} {visited scopes : List ScopeId} {found : SymbolSet}
    (ran : table.searchAll links name context visited scopes = .ok found) :
    table.AllThere found.ids := by
  rcases Outcome.of_bind ran with ⟨search, folded, same⟩
  cases same
  exact foldlM_keeps (fun search => table.AllThere search.found.ids)
    (fun _ _ _ _ before ran => allThere_of_searchWithin _ before ran) .nil folded

theorem allThere_of_lookupQualified {scope : ScopeId} {found : SymbolSet}
    (ran : table.lookupQualified scope name context = .ok found) : table.AllThere found.ids := by
  rcases Outcome.of_bind ran with ⟨here, _, ran⟩
  have own : ∀ {answer}, (do
      let own ← table.find scope name context
      if !own.isEmpty || (context.declaration && name.isSimpleName) then return own
      else table.searchAll Region.nominated name context [scope] here.region.nominated) =
        .ok answer → table.AllThere answer.ids := by
    intro answer ran
    rcases Outcome.of_bind ran with ⟨own, found, ran⟩
    split at ran
    · cases ran
      exact allThere_of_find found
    · exact allThere_of_searchAll ran
  dsimp only at ran
  split at ran
  · next same => exact own (same ▸ ran)
  · next same => exact own (same ▸ ran)
  · exact allThere_of_searchAll ran
  · exact allThere_of_find ran

/-! ## Outwards -/

theorem allThere_of_orElse {first found : SymbolSet} {second : Unit → Outcome SymbolSet}
    (holds : table.AllThere first.ids)
    (other : ∀ found, second () = .ok found → table.AllThere found.ids)
    (ran : orElse first second = .ok found) : table.AllThere found.ids := by
  unfold orElse at ran
  split at ran
  · exact other found ran
  · cases ran
    exact holds

theorem allThere_of_inherited {id : ScopeId} {bases : List ScopeId} {found : SymbolSet}
    (ran : table.inherited id bases name context = .ok found) : table.AllThere found.ids := by
  unfold Table.inherited at ran
  split at ran
  · exact allThere_of_searchAll ran
  · cases ran
    exact .nil

/-- A lookup with a number of steps hands out nothing but symbols of the table. -/
def HandsOut (table : Table) (name : Encoding) (steps : Nat) : Prop :=
  ∀ {context id searched found}, table.unqualifiedWithin name steps context id searched = .ok found →
    table.AllThere found.found.ids

theorem HandsOut.through {steps : Nat} (handsOut : table.HandsOut name steps) {own : SymbolSet}
    {targets searched : List ScopeId} {here : Local} (holds : table.AllThere own.ids)
    (ran : table.through name steps context targets own searched = .ok here) :
    table.AllThere here.found.ids := by
  unfold Table.through at ran
  split at ran
  · refine foldlM_keeps (fun soFar : Local => table.AllThere soFar.found.ids) ?_ .nil ran
    intro before target after _ holds ran
    unfold nominatedStep at ran
    split at ran
    · cases ran
      exact holds
    · rcases Outcome.of_bind ran with ⟨there, found, same⟩
      cases same
      exact holds.union (handsOut found)
  · cases ran
    exact holds

theorem HandsOut.offered {steps : Nat} (handsOut : table.HandsOut name steps) {id : ScopeId}
    {region : Region} {own : SymbolSet} {searched : List ScopeId} {here : Local}
    (holds : table.AllThere own.ids)
    (ran : table.offered name steps context id region own searched = .ok here) :
    table.AllThere here.found.ids := by
  cases region with
  | namespaceBody inner fragments nominated => exact handsOut.through holds ran
  | functionBody inner declaration parameters nominated =>
    rcases Outcome.of_bind ran with ⟨own, tried, ran⟩
    refine handsOut.through (allThere_of_orElse holds ?_ tried) ran
    intro found other
    cases parameters with
    | none => cases other; exact .nil
    | some inside => exact allThere_of_find other
  | block node nominated => exact handsOut.through holds ran
  | classBody inner specifier bases =>
    rcases Outcome.of_bind ran with ⟨own, tried, same⟩
    cases same
    exact allThere_of_orElse holds (fun found => allThere_of_inherited) tried
  | prototype declaration => cases ran; exact holds
  | templateParameters declaration => cases ran; exact holds

theorem HandsOut.outwards {steps : Nat} (handsOut : table.HandsOut name steps) {scope : Scope}
    {here found : Local} (holds : table.AllThere here.found.ids)
    (ran : table.outwards name steps context scope here = .ok found) :
    table.AllThere found.found.ids := by
  unfold Table.outwards at ran
  split at ran
  · split at ran
    · cases ran
      exact holds
    · exact handsOut ran
  · cases ran
    exact holds

theorem allThere_of_unqualifiedWithin (steps : Nat) : table.HandsOut name steps := by
  induction steps with
  | zero => exact fun ran => by cases ran
  | succ steps ih =>
    intro context id searched found ran
    rcases Outcome.of_bind ran with ⟨scope, read, rest⟩
    rcases Outcome.of_bind rest with ⟨own, asked, -⟩
    rw [unqualifiedWithin_succ steps id searched read asked] at ran
    rcases Outcome.of_bind ran with ⟨here, offers, outwards⟩
    exact ih.outwards (ih.offered (allThere_of_find asked) offers) outwards

theorem allThere_of_lookup {scope : ScopeId} {found : SymbolSet}
    (ran : table.lookup name scope context = .ok (.ok found)) : table.AllThere found.ids := by
  unfold lookup at ran
  split at ran
  · rcases Outcome.of_bind ran with ⟨components, _, ran⟩
    split at ran
    · cases ran
      exact .nil
    · rcases Outcome.of_bind ran with ⟨denoted, _, ran⟩
      split at ran
      · cases ran
      · cases ran
        exact .nil
      · rcases Outcome.of_bind ran with ⟨key, _, ran⟩
        rcases Outcome.of_bind ran with ⟨set, found, same⟩
        cases same
        exact allThere_of_lookupQualified found
  · rcases Outcome.of_bind ran with ⟨key, _, ran⟩
    rcases Outcome.of_bind ran with ⟨set, found, same⟩
    cases same
    rcases Outcome.of_bind found with ⟨walked, search, same⟩
    cases same
    exact allThere_of_unqualifiedWithin _ search

/-! ## Qualifiers -/

/-- A symbol leads to the scope that a namespace or a class has. -/
theorem defines_of_scopeOfSymbol {text : String} {id : SymbolId} {target : ScopeId}
    (ran : table.scopeOfSymbol text id = .ok (.ok (some target))) :
    ∃ aliased symbol, table.symbol aliased = .ok symbol ∧ symbol.defines = some target ∧
      (symbol.kind.family.body? = some .namespaceBody ∨
        symbol.kind.family.body? = some .classBody) := by
  rcases Outcome.of_bind ran with ⟨aliased, _, ran⟩
  rcases Outcome.of_bind ran with ⟨symbol, read, ran⟩
  cases same : symbol.defines with
  | none =>
    rw [same] at ran
    split at ran <;> cases ran
  | some scope =>
    rw [same] at ran
    have defined : (symbol.kind.family.body? = some .namespaceBody ∨
        symbol.kind.family.body? = some .classBody) → scope = target →
        ∃ aliased symbol, table.symbol aliased = .ok symbol ∧ symbol.defines = some target ∧
          (symbol.kind.family.body? = some .namespaceBody ∨
            symbol.kind.family.body? = some .classBody) := by
      rintro body rfl
      exact ⟨aliased, symbol, read, same, body⟩
    split at ran
    · cases ran
    · next kind => cases ran; exact defined (.inl (by rw [kind]; rfl)) rfl
    · next kind => cases ran; exact defined (.inr (by rw [kind]; rfl)) rfl
    · next kind => cases ran; exact defined (.inr (by rw [kind]; rfl)) rfl
    · cases ran

/-- A qualifier denotes a namespace or a class. -/
theorem Consistent.hasMembers_of_lookupScope (consistent : table.Consistent)
    (root : table.HasShape global .namespaceBody) {scope target : ScopeId}
    (ran : table.lookupScope name scope = .ok (.ok (some target))) : table.HasMembers target := by
  unfold lookupScope at ran
  split at ran
  · cases ran
    exact .inl root
  · rcases Outcome.of_bind ran with ⟨found, _, ran⟩
    split at ran
    · cases ran
    · rcases Outcome.of_bind ran with ⟨last, _, ran⟩
      rcases Outcome.of_bind ran with ⟨text, _, ran⟩
      split at ran
      · cases ran
      · split at ran
        · cases ran
        · rcases defines_of_scopeOfSymbol ran with ⟨aliased, symbol, read, same, body⟩
          rcases (consistent.symbols aliased symbol read).defines target same with
            ⟨shape, again, has⟩
          rcases body with body | body <;> rw [body] at again <;> cases again
          · exact .inl has
          · exact .inr has
        · cases ran

end Table
end CppNames
