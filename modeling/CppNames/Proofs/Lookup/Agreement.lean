import CppNames.Proofs.Lookup.Depth
import CppNames.Proofs.Lookup.Qualified

namespace CppNames
namespace Table

/-!
# One namespace, looked up in two ways

A name behind `N::` is searched in `N` and along its using-directives.  The same name inside `N`
is searched there too, before the scopes around `N` come into play.  The two searches are
separate: one remembers a scope when it comes there, the other one before it goes there, and only
the other one may go on outwards.

Using-directives lead to namespaces, and a nominated namespace is searched without the scopes
around it.  So step by step both searches visit the same scopes in the same order and collect
the same symbols, as long as neither runs out of the number of steps that it carries.  What is
found behind `N::` is therefore what the name means inside `N`, the order included.
-/

open Outcome (Refines)

variable {table : Table} {name : Encoding} {context : LookupContext} {scope : ScopeId}

/-! ## Nominated namespaces -/

/-- Namespaces one after the other, if each one by itself is searched in the same way. -/
theorem refines_foldlM_nominatedStep {steps : Nat} {targets : List ScopeId}
    (each : ∀ target ∈ targets, ∀ before : Search,
      Refines (table.searchWithin Region.nominated name context steps before target)
        (nominatedSearch table name steps context before target)) (before : Local) :
    Refines (targets.foldlM (table.searchWithin Region.nominated name context steps) before.search)
      ((targets.foldlM (nominatedStep table name steps context) before).map Local.search) := by
  rw [foldlM_nominatedStep]
  exact .foldlM _ _ each

/-- A nominated namespace is searched like the members of a scope behind `N::`. -/
theorem NominatesNamespaces.refines_nominatedSearch (only : table.NominatesNamespaces)
    (steps : Nat) (before : Search) (target : ScopeId) (namespaced : table.IsNamespace target) :
    Refines (table.searchWithin Region.nominated name context steps before target)
      (nominatedSearch table name steps context before target) := by
  induction steps generalizing before target with
  | zero => exact .endless
  | succ steps ih =>
    rcases namespaced with ⟨found, read, isNamespace⟩
    unfold searchWithin nominatedSearch nominatedStep
    by_cases old : target ∈ before.visited
    · rw [if_pos old, if_pos old]
      exact .refl _
    rw [if_neg old, if_neg old]
    cases own : table.find target name context with
    | error fault =>
      have unread : table.find target name { context with nominated := true } = .error fault := own
      unfold unqualifiedWithin
      rw [read, unread]
      exact .refl _
    | ok members =>
      rw [unqualifiedWithin_nominated steps target before.visited read isNamespace own, read]
      cases lacks : members.isEmpty with
      | false =>
        simp only [through, lacks, bind, Except.bind, Bool.false_eq_true, if_false]
        exact .refl _
      | true =>
        have behind := refines_foldlM_nominatedStep (fun next link state =>
          ih state next (only target next (linked_of_scope read Region.nominated ▸ link)))
          ⟨.none, target :: before.visited⟩
        simp only [through, lacks, if_true]
        -- The symbols found so far are kept outside both folds.
        have mapped : ∀ there : Outcome Local,
            (there >>= fun there => (pure ⟨before.found.union there.found, there.searched⟩ :
              Outcome Local)).map Local.search =
            there.map Local.search >>= fun behind =>
              pure ⟨before.found.union behind.found, behind.visited⟩ := by
          rintro (fault | there) <;> rfl
        rw [mapped]
        change Refines (if members.isEmpty = true then _ else _) _
        rw [if_pos lacks]
        exact .bind behind fun _ => .refl _

/-! ## Inside a namespace -/

theorem exists_searchBound (table : Table) :
    ∃ steps, table.searchBound = steps + 1 ∧ table.scopes.size < steps := by
  have square : (table.scopes.size + 2) * 2 ≤ table.searchBound :=
    Nat.mul_le_mul_left _ (Nat.le_add_left 2 _)
  exact ⟨table.searchBound - 1, by omega, by omega⟩

/-- Inside a namespace the scopes around it are searched only where neither the namespace nor
those that it nominates offer anything. -/
theorem lookupUnqualified_of_through {steps : Nat} (bound : table.searchBound = steps + 1)
    {found : Scope} (read : table.scope scope = .ok found)
    (isNamespace : found.region.isNamespace = true) {own : SymbolSet} {here : Local}
    (finds : table.find scope name context = .ok own)
    (offers : through table name steps context found.region.nominated own [scope] = .ok here)
    (some : here.found.isEmpty = false) :
    table.lookupUnqualified scope name context = .ok here.found := by
  have offered : offered table name steps context scope found.region own [] = .ok here := by
    rcases found with ⟨region, outer, nested, bindings⟩
    cases region with
    | namespaceBody inner fragments nominated => exact offers
    | _ => cases isNamespace
  unfold lookupUnqualified
  rw [bound, unqualifiedWithin_succ steps scope [] read finds, offered]
  simp only [bind, Except.bind, outwards_of_found steps found some, pure, Except.pure]

/-- Behind `N::` the namespaces that `N` nominates are searched where it lacks a name. -/
theorem lookupQualified_of_isNamespace (plain : context.declaration = false) {found : Scope}
    (read : table.scope scope = .ok found) (isNamespace : found.region.isNamespace = true) :
    table.lookupQualified scope name context = (do
      let own ← table.find scope name context
      if own.isEmpty then
        table.searchAll Region.nominated name context [scope] found.region.nominated
      else return own) := by
  rcases found with ⟨region, outer, nested, bindings⟩
  unfold lookupQualified
  rw [read]
  cases region with
  | namespaceBody inner fragments nominated =>
    change (table.find scope name context >>= fun own => if !own.isEmpty || _ then _ else _) = _
    rcases table.find scope name context with fault | own
    · rfl
    · cases lacks : own.isEmpty <;> simp [plain, lacks, bind, Except.bind]
  | _ => cases isNamespace

/-- What is found behind `N::` is found inside `N`, in the same order. -/
theorem lookupUnqualified_of_lookupQualified (only : table.NominatesNamespaces)
    (namespaced : table.IsNamespace scope) (plain : context.declaration = false)
    {result : SymbolSet} (ran : table.lookupQualified scope name context = .ok result)
    (some : result.isEmpty = false) :
    table.lookupUnqualified scope name context = .ok result := by
  rcases namespaced with ⟨found, read, isNamespace⟩
  rcases table.exists_searchBound with ⟨steps, bound, enough⟩
  rw [lookupQualified_of_isNamespace plain read isNamespace] at ran
  rcases Outcome.of_bind ran with ⟨own, finds, ran⟩
  cases lacks : own.isEmpty with
  | false =>
    rw [lacks] at ran
    cases ran
    have offers : through table name steps context found.region.nominated result [scope] =
        .ok ⟨result, [scope]⟩ := by simp [through, lacks]
    exact lookupUnqualified_of_through bound read isNamespace finds offers some
  | true =>
    rw [if_pos lacks] at ran
    rcases Outcome.of_bind ran with ⟨after, searched, same⟩
    cases same
    have each : ∀ next ∈ found.region.nominated, table.IsNamespace next := fun next link =>
      only scope next (linked_of_scope read Region.nominated ▸ link)
    have deeper : Refines
        (found.region.nominated.foldlM
          (table.searchWithin Region.nominated name context (table.scopes.size + 1)) ⟨{}, [scope]⟩)
        (found.region.nominated.foldlM
          (table.searchWithin Region.nominated name context steps) ⟨{}, [scope]⟩) :=
      .foldlM _ _ fun next _ state => searchWithin_refines enough state next
    have nested : Refines (found.region.nominated.foldlM
          (table.searchWithin Region.nominated name context steps) ⟨{}, [scope]⟩) _ :=
      refines_foldlM_nominatedStep (fun next link state =>
        only.refines_nominatedSearch steps state next (each next link)) ⟨.none, [scope]⟩
    rcases Outcome.of_map ((deeper.trans nested).ok searched) with ⟨here, walked, rfl⟩
    have offers : through table name steps context found.region.nominated own [scope] =
        .ok here := by
      simp only [through, lacks, if_true]
      exact walked
    exact lookupUnqualified_of_through bound read isNamespace finds offers some

/-- Behind a namespace and inside it a name means the same.  Where using-directives nominate
namespaces, however they run in circles, and a name is not being declared, a lookup behind `N::`
that finds something has found what a lookup inside `N` finds, in the same order.  On a sound table
the lookup behind `N::` always ends. -/
theorem lookup_agrees_of_isNamespace (only : table.NominatesNamespaces)
    (namespaced : table.IsNamespace scope) (plain : context.declaration = false) :
    (∀ result, table.lookupQualified scope name context = .ok result → result.isEmpty = false →
      table.lookupUnqualified scope name context = .ok result) ∧
    (table.Sound → ∃ result, table.lookupQualified scope name context = .ok result) := by
  refine ⟨fun result => lookupUnqualified_of_lookupQualified only namespaced plain, fun sound => ?_⟩
  rcases namespaced with ⟨found, read, isNamespace⟩
  have links : found.region.memberLinks? = some Region.nominated := by
    cases region : found.region <;> simp_all [Region.isNamespace, Region.memberLinks?]
  rcases sound.lookupQualified read links (.inr (by rw [plain, Bool.false_and])) with
    ⟨result, ran, _⟩
  exact ⟨result, ran⟩

theorem circular_nominatesNamespaces : circular.NominatesNamespaces := by
  apply nominatesNamespaces_of_isNamespace
  decide

/-- The variable of the last namespace, found from the first one in both ways, although the
using-directives lead back to where the search began. -/
theorem lookup_agrees_of_isNamespace_circular :
    circular.lookupQualified ⟨0⟩ ⟨[0x81, 0x78]⟩ {} = .ok ⟨[⟨0⟩], false⟩ ∧
      circular.lookupUnqualified ⟨0⟩ ⟨[0x81, 0x78]⟩ {} = .ok ⟨[⟨0⟩], false⟩ :=
  have behind : circular.lookupQualified ⟨0⟩ ⟨[0x81, 0x78]⟩ {} = .ok ⟨[⟨0⟩], false⟩ := rfl
  ⟨behind, (lookup_agrees_of_isNamespace circular_nominatesNamespaces ⟨_, rfl, rfl⟩ rfl).1 _ behind
    rfl⟩

end Table
end CppNames
