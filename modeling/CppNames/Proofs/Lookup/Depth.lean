import CppNames.Proofs.Lookup.Enclosing

namespace CppNames

/-!
# How deep a lookup nests

An unqualified lookup goes outwards and sideways at once: from a scope to the scope around it, to
the namespaces that it nominates, and to the bases of a class.  The way outwards is not guarded by
what was searched before, the other ways are, each by its own memory, so no single number gets
smaller on all of them.

Here the lookup is taken apart into levels, where a scope that is searched because of another one
is one level deeper.  `searchNested` is the same search with a number of levels that all ways have
in common, and nothing else to end it.  On the way outwards as many levels are needed as scopes lie
around the first one.  A nominated namespace is never left outwards, so behind a nominated
namespace each level has one namespace less to search, and behind a class one class less.

The recursive searches carry a number that bounds how deep they nest.  It is no part of what they
search: with another number a search either runs out of it or does the same.  `Refines` says this
of two computations, and goes through the combinators in which the searches are written.
-/

/-! ## Searches with a number of steps -/

namespace Outcome

variable {α β : Type} {less more : Outcome α}

/-- One computation ran out of steps, or another one has the same outcome. -/
def Refines (less more : Outcome α) : Prop := less = .error .endless ∨ more = less

theorem Refines.refl (outcome : Outcome α) : Refines outcome outcome := .inr rfl

theorem Refines.endless : Refines (.error .endless) more := .inl rfl

/-- An answer stays what it was. -/
theorem Refines.ok (refines : Refines less more) {value : α} (ran : less = .ok value) :
    more = .ok value := by
  rcases refines with none | same
  · rw [ran] at none
    cases none
  · exact same.trans ran

theorem Refines.trans {most : Outcome α} (first : Refines less more) (second : Refines more most) :
    Refines less most := by
  rcases first with none | rfl
  · exact .inl none
  · exact second

theorem Refines.bind {next nextMore : α → Outcome β} (first : Refines less more)
    (rest : ∀ value, Refines (next value) (nextMore value)) :
    Refines (less >>= next) (more >>= nextMore) := by
  rcases first with rfl | rfl
  · exact .inl rfl
  · cases more with
    | error fault => exact .refl _
    | ok value => exact rest value

/-- Steps that refine one another, one behind the other. -/
theorem Refines.foldlM {step stepMore : β → α → Outcome β} (members : List α) (start : β)
    (each : ∀ member ∈ members, ∀ state, Refines (step state member) (stepMore state member)) :
    Refines (members.foldlM step start) (members.foldlM stepMore start) := by
  induction members generalizing start with
  | nil => exact .refl _
  | cons first rest ih =>
    rw [List.foldlM_cons, List.foldlM_cons]
    rcases List.forall_mem_cons.mp each with ⟨head, tail⟩
    exact .bind (head start) fun state => ih state tail

end Outcome

namespace Table

open Outcome (Refines)

variable {table : Table} {name : Encoding} {context : LookupContext}

/-- A search along links that may nest deeper finds the same. -/
theorem searchWithin_refines {links : Links} {steps more : Nat} (le : steps ≤ more) (before : Search)
    (scope : ScopeId) :
    Refines (table.searchWithin links name context steps before scope)
      (table.searchWithin links name context more before scope) := by
  induction steps generalizing more before scope with
  | zero => exact .endless
  | succ steps ih =>
    rcases Nat.exists_eq_succ_of_ne_zero (Nat.ne_zero_of_lt le) with ⟨more, rfl⟩
    have deeper := Nat.le_of_succ_le_succ le
    unfold searchWithin
    by_cases old : scope ∈ before.visited
    · rw [if_pos old, if_pos old]
      exact .refl _
    · rw [if_neg old, if_neg old]
      refine .bind (.refl _) fun own => ?_
      split
      · refine .bind (.refl _) fun found => .bind ?_ fun behind => .refl _
        exact .foldlM _ _ fun target _ state => ih deeper state target
      · exact .refl _

/-! ## Levels -/

/-- How a lookup goes on in another scope, one level deeper. -/
abbrev Onward := LookupContext → ScopeId → List ScopeId → Outcome Local

/-- How a lookup goes on in the bases of a class. -/
abbrev Upward := LookupContext → ScopeId → List ScopeId → Outcome SymbolSet

/-- Searching one nominated namespace after others, unless it was searched before. -/
def nominatedOver (onward : Onward) (context : LookupContext) (soFar : Local)
    (target : ScopeId) : Outcome Local :=
  if target ∈ soFar.searched then .ok soFar
  else do
    let there ← onward { context with nominated := true } target soFar.searched
    return ⟨soFar.found.union there.found, there.searched⟩

/-- What a scope offers through its using-directives. -/
def throughOver (onward : Onward) (context : LookupContext) (targets : List ScopeId)
    (own : SymbolSet) (searched : List ScopeId) : Outcome Local :=
  if own.isEmpty then targets.foldlM (nominatedOver onward context) ⟨.none, searched⟩
  else .ok ⟨own, searched⟩

/-- What a scope offers before the scopes around it are searched. -/
def offeredOver (table : Table) (name : Encoding) (onward : Onward) (upward : Upward)
    (context : LookupContext) (id : ScopeId) (region : Region) (own : SymbolSet)
    (searched : List ScopeId) : Outcome Local :=
  match region with
  | .namespaceBody .. => throughOver onward context region.nominated own (id :: searched)
  | .functionBody _ _ parameters _ => do
    let own ← orElse own fun _ =>
      parameters.elim (.ok .none) fun inside => table.find inside name context
    throughOver onward context region.nominated own searched
  | .block .. => throughOver onward context region.nominated own searched
  | .classBody _ _ bases => do
    let found ← orElse own fun _ => upward context id bases
    return ⟨found, searched⟩
  | .prototype _ | .templateParameters _ => return ⟨own, searched⟩

/-- How a lookup goes on behind a scope: in the scope around it, or nowhere. -/
def outwardsOver (onward : Onward) (context : LookupContext) (scope : Scope) (here : Local) :
    Outcome Local :=
  match scope.outer with
  | some outer =>
    if !here.found.isEmpty || stays context scope here then .ok here
    else onward context outer here.searched
  | none => .ok here

/-- One level of a lookup. -/
def level (table : Table) (name : Encoding) (onward : Onward) (upward : Upward)
    (context : LookupContext) (id : ScopeId) (searched : List ScopeId) : Outcome Local := do
  let scope ← table.scope id
  let own ← table.find id name context
  let here ← offeredOver table name onward upward context id scope.region own searched
  outwardsOver onward context scope here

/-- What a class inherits, searched with a number of levels. -/
def inheritedNested (table : Table) (name : Encoding) (levels : Nat) : Upward :=
  fun context id bases =>
    if table.searchesBases then do
      let search ← bases.foldlM (table.searchWithin Region.bases name context levels)
        { visited := [id] }
      return search.found
    else .ok .none

/-- The search of a scope and the scopes around it with a number of levels, each of which is a
scope that is searched because of another one. -/
def searchNested (table : Table) (name : Encoding) : Nat → Onward
  | 0 => fun _ _ _ => .error .endless
  | levels + 1 =>
    level table name (searchNested table name levels) (inheritedNested table name levels)

/-- Unqualified lookup that nests at most a given number of levels deep. -/
def lookupNested (table : Table) (levels : Nat) (scope : ScopeId) (name : Encoding)
    (context : LookupContext) : Outcome SymbolSet := do
  return (← table.searchNested name levels context scope []).found

/-- Unqualified lookup is made of these levels. -/
theorem unqualifiedWithin_eq_level (steps : Nat) (context : LookupContext) (id : ScopeId)
    (searched : List ScopeId) :
    table.unqualifiedWithin name (steps + 1) context id searched =
      level table name (table.unqualifiedWithin name steps)
        (inheritedNested table name (table.scopes.size + 1)) context id searched := by
  unfold level
  cases read : table.scope id with
  | error fault =>
    unfold unqualifiedWithin
    rw [read]
    rfl
  | ok scope =>
    cases found : table.find id name context with
    | error fault =>
      unfold unqualifiedWithin
      rw [read, found]
      rfl
    | ok own =>
      rw [unqualifiedWithin_succ steps id searched read found]
      rfl

theorem level_of_scope (onward : Onward) (upward : Upward) (context : LookupContext)
    {id : ScopeId} (searched : List ScopeId) {scope : Scope} (read : table.scope id = .ok scope) :
    level table name onward upward context id searched =
      table.find id name context >>= fun own =>
        offeredOver table name onward upward context id scope.region own searched >>=
          outwardsOver onward context scope := by
  unfold level
  rw [read]
  rfl

/-! ## More levels -/

theorem throughOver_refines {onward onwardMore : Onward}
    (deeper : ∀ context id searched,
      Refines (onward context id searched) (onwardMore context id searched))
    (targets : List ScopeId) (own : SymbolSet) (searched : List ScopeId) :
    Refines (throughOver onward context targets own searched)
      (throughOver onwardMore context targets own searched) := by
  unfold throughOver
  split
  · refine .foldlM _ _ fun target _ soFar => ?_
    unfold nominatedOver
    split
    · exact .refl _
    · exact .bind (deeper _ target soFar.searched) fun there => .refl _
  · exact .refl _

theorem orElse_refines {first : SymbolSet} {second secondMore : Unit → Outcome SymbolSet}
    (deeper : Refines (second ()) (secondMore ())) :
    Refines (orElse first second) (orElse first secondMore) := by
  unfold orElse
  split
  · exact deeper
  · exact .refl _

/-- A level finds the same where the ways from it may nest deeper. -/
theorem level_refines {onward onwardMore : Onward} {upward upwardMore : Upward}
    (deeper : ∀ context id searched,
      Refines (onward context id searched) (onwardMore context id searched))
    (higher : ∀ context id scope, table.scope id = .ok scope →
      Refines (upward context id scope.region.bases) (upwardMore context id scope.region.bases))
    (context : LookupContext) (id : ScopeId) (searched : List ScopeId) :
    Refines (level table name onward upward context id searched)
      (level table name onwardMore upwardMore context id searched) := by
  cases read : table.scope id with
  | error fault =>
    unfold level
    rw [read]
    exact .refl _
  | ok scope =>
    rw [level_of_scope onward upward context searched read,
      level_of_scope onwardMore upwardMore context searched read]
    refine .bind (.refl _) fun own => .bind ?_ fun here => ?_
    · have bases := higher context id scope read
      cases region : scope.region with
      | namespaceBody inner fragments nominated => exact throughOver_refines deeper _ _ _
      | functionBody inner declaration parameters nominated =>
        exact .bind (.refl _) fun own => throughOver_refines deeper _ _ _
      | block node nominated => exact throughOver_refines deeper _ _ _
      | classBody inner specifier linked =>
        rw [region] at bases
        exact .bind (orElse_refines bases) fun found => .refl _
      | prototype declaration => exact .refl _
      | templateParameters declaration => exact .refl _
    · unfold outwardsOver
      split
      · split
        · exact .refl _
        · exact deeper _ _ _
      · exact .refl _

/-- On a sound table the bases of a class are searched to the end, with one level more than there
are scopes. -/
theorem Sound.inheritedNested_refines (sound : table.Sound) (levels : Nat)
    (context : LookupContext) (id : ScopeId) (scope : Scope) (read : table.scope id = .ok scope) :
    Refines (inheritedNested table name levels context id scope.region.bases)
      (inheritedNested table name (table.scopes.size + 1) context id scope.region.bases) := by
  have deeper : ∀ {few many : Nat}, few ≤ many →
      Refines (inheritedNested table name few context id scope.region.bases)
        (inheritedNested table name many context id scope.region.bases) := by
    intro few many le
    unfold inheritedNested
    split
    · exact .bind (.foldlM _ _ fun base _ search => searchWithin_refines le search base)
        fun _ => .refl _
    · exact .refl _
  rcases Nat.le_total levels (table.scopes.size + 1) with few | many
  · exact deeper few
  · have whole : ∃ found, inheritedNested table name (table.scopes.size + 1) context id
        scope.region.bases = .ok found := by
      unfold inheritedNested
      split
      · have starts : ∀ start ∈ table.linked Region.bases id, table.HasScope start :=
          fun start member => sound.linked vouched_bases member
        rcases sound.searchAll vouched_bases [id] _ starts with ⟨after, ran, _⟩
        rw [linked_of_scope read] at ran
        exact ⟨after.found, ran⟩
      · exact ⟨.none, rfl⟩
    rcases whole with ⟨found, ran⟩
    exact .inr (ran.trans ((deeper many).ok ran).symm)

/-- Nested at most some levels deep, a lookup finds what it finds otherwise, unless it needs more
levels. -/
theorem Sound.searchNested_refines (sound : table.Sound) {levels steps : Nat} (le : levels ≤ steps)
    (context : LookupContext) (id : ScopeId) (searched : List ScopeId) :
    Refines (table.searchNested name levels context id searched)
      (table.unqualifiedWithin name steps context id searched) := by
  induction levels generalizing steps context id searched with
  | zero => exact .endless
  | succ levels ih =>
    rcases Nat.exists_eq_succ_of_ne_zero (Nat.ne_zero_of_lt le) with ⟨steps, rfl⟩
    rw [Nat.succ_eq_add_one, unqualifiedWithin_eq_level]
    exact level_refines (ih (Nat.le_of_succ_le_succ le)) (sound.inheritedNested_refines levels)
      context id searched

/-! ## How many scopes are left -/

/-- Whether the region of a scope is of a kind. -/
def isOfKind (table : Table) (kind : Region → Bool) (id : ScopeId) : Bool :=
  (table.scope id).toOption.any fun scope => kind scope.region

/-- The number of scopes of a kind. -/
def numberOf (table : Table) (kind : Region → Bool) : Nat :=
  table.scopeIds.countP (table.isOfKind kind)

/-- The number of scopes of a kind that are not among some scopes.  The scopes of other kinds
count as visited. -/
def leftOf (table : Table) (kind : Region → Bool) (visited : List ScopeId) : Nat :=
  table.unvisited (visited ++ table.scopeIds.filter fun id => !table.isOfKind kind id)

theorem isOfKind_of_scope {kind : Region → Bool} {id : ScopeId} {scope : Scope}
    (read : table.scope id = .ok scope) : table.isOfKind kind id = kind scope.region := by
  unfold isOfKind
  rw [read]
  rfl

theorem leftOf_nil (kind : Region → Bool) : table.leftOf kind [] = table.numberOf kind := by
  refine List.countP_congr fun id listed => ?_
  simp [listed]

theorem leftOf_le {kind : Region → Bool} {early late : List ScopeId} (kept : early ⊆ late) :
    table.leftOf kind late ≤ table.leftOf kind early :=
  unvisited_le fun _ member =>
    (List.mem_append.mp member).elim (fun old => List.mem_append_left _ (kept old))
      (fun other => List.mem_append_right _ other)

theorem leftOf_cons_lt {kind : Region → Bool} {visited : List ScopeId} {id : ScopeId} {scope : Scope}
    (read : table.scope id = .ok scope) (ofKind : kind scope.region = true) (fresh : id ∉ visited) :
    table.leftOf kind (id :: visited) < table.leftOf kind visited := by
  refine unvisited_cons_lt (hasScope_of_scope read) fun member => ?_
  rcases List.mem_append.mp member with old | other
  · exact fresh old
  · have wrong := (List.mem_filter.mp other).2
    rw [isOfKind_of_scope read, ofKind] at wrong
    cases wrong

/-! ## Enough levels -/

/-- A search that ends and forgets none of the scopes visited before. -/
def EndsKeeping {α : Type} (visited : α → List ScopeId) (run : Outcome α)
    (before : List ScopeId) : Prop :=
  ∃ after, run = .ok after ∧ before ⊆ visited after

theorem EndsKeeping.ok {α : Type} {visited : α → List ScopeId} {before : List ScopeId} {value : α}
    (kept : before ⊆ visited value) : EndsKeeping visited (.ok value) before :=
  ⟨value, rfl, kept⟩

/-- A search that forgets nothing of more scopes forgets nothing of fewer. -/
theorem EndsKeeping.since {α : Type} {visited : α → List ScopeId} {run : Outcome α}
    {before earlier : List ScopeId} (ends : EndsKeeping visited run before)
    (fewer : earlier ⊆ before) : EndsKeeping visited run earlier := by
  rcases ends with ⟨after, ran, kept⟩
  exact ⟨after, ran, List.Subset.trans fewer kept⟩

theorem EndsKeeping.bind {α β : Type} {visited : α → List ScopeId} {reached : β → List ScopeId}
    {run : Outcome α} {next : α → Outcome β} {before : List ScopeId}
    (first : EndsKeeping visited run before)
    (rest : ∀ after, before ⊆ visited after → EndsKeeping reached (next after) before) :
    EndsKeeping reached (run >>= next) before := by
  rcases first with ⟨after, ran, kept⟩
  rw [ran]
  exact rest after kept

theorem EndsKeeping.foldlM {α : Type} {visited : α → List ScopeId}
    {step : α → ScopeId → Outcome α} {before : List ScopeId} (targets : List ScopeId) (start : α)
    (kept : before ⊆ visited start)
    (each : ∀ target ∈ targets, ∀ state, before ⊆ visited state →
      EndsKeeping visited (step state target) (visited state)) :
    EndsKeeping visited (targets.foldlM step start) before := by
  induction targets generalizing start with
  | nil => exact .ok kept
  | cons first rest ih =>
    rcases List.forall_mem_cons.mp each with ⟨head, tail⟩
    rw [List.foldlM_cons]
    exact ((head start kept).since kept).bind fun middle further => ih middle further tail

/-- Only classes have bases, so a search through bases nests once for every class that is left. -/
theorem Sound.searchWithin_bases (sound : table.Sound) (levels : Nat) (before : Search)
    (scope : ScopeId) (inside : table.HasScope scope)
    (room : table.leftOf Region.isClass before.visited < levels) :
    EndsKeeping Search.visited (table.searchWithin Region.bases name context levels before scope)
      before.visited := by
  induction levels generalizing before scope with
  | zero => exact absurd room (Nat.not_lt_zero _)
  | succ levels ih =>
    unfold searchWithin
    by_cases old : scope ∈ before.visited
    · rw [if_pos old]
      exact .ok (List.Subset.refl _)
    rw [if_neg old, (sound.find inside name context).1]
    rcases scope_of_hasScope inside with ⟨found, read⟩
    have kept : before.visited ⊆ scope :: before.visited := List.subset_cons_self _ _
    simp only [read, bind, Except.bind, pure, Except.pure]
    split
    · have behind : EndsKeeping Search.visited
          (found.region.bases.foldlM (table.searchWithin Region.bases name context levels)
            ⟨{}, scope :: before.visited⟩) (scope :: before.visited) := by
        refine .foldlM _ _ (List.Subset.refl _) fun base link state known => ?_
        have isClass : found.region.isClass = true := by
          cases region : found.region <;> simp_all [Region.bases, Region.isClass]
        have fewer := leftOf_cons_lt read isClass old
        have left : table.leftOf Region.isClass state.visited ≤ _ := leftOf_le known
        exact ih state base (sound.linked vouched_bases (linked_of_scope read Region.bases ▸ link))
          (by omega)
      exact (behind.since kept).bind fun after further => .ok further
    · exact .ok kept

theorem Sound.inheritedNested_ends (sound : table.Sound) {id : ScopeId} {scope : Scope}
    (read : table.scope id = .ok scope) (isClass : scope.region.isClass = true) {levels : Nat}
    (room : table.numberOf Region.isClass ≤ levels) (context : LookupContext) :
    ∃ found, inheritedNested table name levels context id scope.region.bases = .ok found := by
  unfold inheritedNested
  split
  · have fewer := leftOf_cons_lt read isClass List.not_mem_nil
    rw [leftOf_nil] at fewer
    have searched : EndsKeeping Search.visited (scope.region.bases.foldlM
        (table.searchWithin Region.bases name context levels) ⟨{}, [id]⟩) [id] := by
      refine .foldlM _ _ (List.Subset.refl _) fun base link state known => ?_
      have left : table.leftOf Region.isClass state.visited ≤ _ := leftOf_le known
      exact sound.searchWithin_bases levels state base
        (sound.linked vouched_bases (linked_of_scope read Region.bases ▸ link)) (by omega)
    rcases searched with ⟨after, ran, _⟩
    rw [ran]
    exact ⟨after.found, rfl⟩
  · exact ⟨.none, rfl⟩

theorem throughOver_ends {onward : Onward} {targets searched : List ScopeId} (own : SymbolSet)
    (sideways : ∀ target ∈ targets, ∀ before, searched ⊆ before → target ∉ before →
      EndsKeeping Local.searched (onward { context with nominated := true } target before) before) :
    EndsKeeping Local.searched (throughOver onward context targets own searched) searched := by
  unfold throughOver
  split
  · refine .foldlM _ _ (List.Subset.refl _) fun target link soFar known => ?_
    unfold nominatedOver
    by_cases old : target ∈ soFar.searched
    · rw [if_pos old]
      exact .ok (List.Subset.refl _)
    · rw [if_neg old]
      exact (sideways target link soFar.searched known old).bind fun there kept => .ok kept
  · exact .ok (List.Subset.refl _)

/-- A second search is asked only where the first one has no answer. -/
theorem exists_orElse {first : SymbolSet} {second : Unit → Outcome SymbolSet}
    (answers : ∃ found, second () = .ok found) : ∃ found, orElse first second = .ok found := by
  unfold orElse
  split
  · exact answers
  · exact ⟨first, rfl⟩

/-- What a scope offers is found if the ways to the namespaces that it nominates end, and behind a
class the search of its bases. -/
theorem Sound.offeredOver_ends (sound : table.Sound) {onward : Onward} {upward : Upward}
    {id : ScopeId} {scope : Scope} {searched : List ScopeId} (read : table.scope id = .ok scope)
    (sideways : ∀ target ∈ scope.region.nominated, ∀ before, searched ⊆ before →
      (scope.region.isNamespace = true → id ∈ before) → target ∉ before →
      EndsKeeping Local.searched (onward { context with nominated := true } target before) before)
    (upwards : scope.region.isClass = true →
      ∃ found, upward context id scope.region.bases = .ok found) (own : SymbolSet) :
    EndsKeeping Local.searched
      (offeredOver table name onward upward context id scope.region own searched) searched := by
  have through : ∀ own visited, searched ⊆ visited →
      (scope.region.isNamespace = true → id ∈ visited) → EndsKeeping Local.searched
        (throughOver onward context scope.region.nominated own visited) searched := by
    intro own visited kept entered
    have ends : EndsKeeping Local.searched
        (throughOver onward context scope.region.nominated own visited) visited :=
      throughOver_ends own fun target link before known fresh =>
        sideways target link before (List.Subset.trans kept known)
          (fun namespaced => known (entered namespaced)) fresh
    exact ends.since kept
  have named := (sound.scope read).region
  cases region : scope.region with
  | namespaceBody inner fragments nominated =>
    rw [region] at through
    exact through own (id :: searched) (List.subset_cons_self _ _) fun _ => List.mem_cons_self
  | functionBody inner declaration parameters nominated =>
    rw [region] at through named
    have asked : ∃ more, orElse own (fun _ =>
        parameters.elim (.ok .none) fun inside => table.find inside name context) = .ok more := by
      refine exists_orElse ?_
      cases parameters with
      | none => exact ⟨_, rfl⟩
      | some inside =>
        have known := named inside (by simp [Region.named?, Region.parameters?])
        exact ⟨_, (sound.find known name context).1⟩
    rcases asked with ⟨more, ran⟩
    unfold offeredOver
    dsimp only
    rw [ran]
    exact through more searched (List.Subset.refl _) (by simp [Region.isNamespace])
  | block node nominated =>
    rw [region] at through
    exact through own searched (List.Subset.refl _) (by simp [Region.isNamespace])
  | classBody inner specifier bases =>
    rw [region] at upwards
    have asked : ∃ more, orElse own (fun _ => upward context id bases) = .ok more :=
      exists_orElse (upwards rfl)
    rcases asked with ⟨more, ran⟩
    unfold offeredOver
    dsimp only
    rw [ran]
    exact .ok (List.Subset.refl _)
  | prototype declaration => exact .ok (List.Subset.refl _)
  | templateParameters declaration => exact .ok (List.Subset.refl _)

theorem outwardsOver_ends {onward : Onward} {scope : Scope} {here : Local}
    {searched : List ScopeId} (kept : searched ⊆ here.searched)
    (outwards : ∀ outer, scope.outer = some outer →
      (scope.region.isNamespace && context.nominated) = false → ∀ before,
      EndsKeeping Local.searched (onward context outer before) before) :
    EndsKeeping Local.searched (outwardsOver onward context scope here) searched := by
  unfold outwardsOver
  split
  · next outer around =>
    split
    · exact .ok kept
    · next leaves =>
      have goesOn : (scope.region.isNamespace && context.nominated) = false := by
        cases namespaced : scope.region.isNamespace <;> simp_all [stays]
      exact (outwards outer around goesOn here.searched).since kept
  · exact .ok kept

/-- A level ends if all ways from it end: those to the nominated namespaces, behind a class the
search of its bases, and the way outwards, which a nominated namespace does not have. -/
theorem Sound.level_ends (sound : table.Sound) {onward : Onward} {upward : Upward} {id : ScopeId}
    {scope : Scope} {searched : List ScopeId} (read : table.scope id = .ok scope)
    (sideways : ∀ target ∈ scope.region.nominated, ∀ before, searched ⊆ before →
      (scope.region.isNamespace = true → id ∈ before) → target ∉ before →
      EndsKeeping Local.searched (onward { context with nominated := true } target before) before)
    (upwards : scope.region.isClass = true →
      ∃ found, upward context id scope.region.bases = .ok found)
    (outwards : ∀ outer, scope.outer = some outer →
      (scope.region.isNamespace && context.nominated) = false → ∀ before,
      EndsKeeping Local.searched (onward context outer before) before) :
    EndsKeeping Local.searched (level table name onward upward context id searched) searched := by
  rw [level_of_scope onward upward context searched read,
    (sound.find (hasScope_of_scope read) name context).1]
  exact (sound.offeredOver_ends read sideways upwards _).bind fun here kept =>
    outwardsOver_ends kept outwards

/-- A nominated namespace is never left outwards, so as many levels are enough as there are
namespaces that were not searched before. -/
theorem Sound.searchNested_nominated (sound : table.Sound) (only : table.NominatesNamespaces)
    {levels : Nat} (nominated : context.nominated = true) {id : ScopeId} {searched : List ScopeId}
    (namespaced : table.IsNamespace id) (fresh : id ∉ searched)
    (room : table.leftOf Region.isNamespace searched ≤ levels) :
    EndsKeeping Local.searched (table.searchNested name levels context id searched) searched := by
  induction levels generalizing context id searched with
  | zero =>
    rcases namespaced with ⟨scope, read, isNamespace⟩
    have fewer := leftOf_cons_lt read isNamespace fresh
    omega
  | succ levels ih =>
    rcases namespaced with ⟨scope, read, isNamespace⟩
    have fewer := leftOf_cons_lt read isNamespace fresh
    refine sound.level_ends read ?_ ?_ ?_
    · intro target link before known entered new
      have here : id :: searched ⊆ before := List.cons_subset.mpr ⟨entered isNamespace, known⟩
      have left : table.leftOf Region.isNamespace before ≤ _ := leftOf_le here
      exact ih rfl (only id target (linked_of_scope read Region.nominated ▸ link)) new (by omega)
    · intro isClass
      cases region : scope.region <;> simp_all [Region.isNamespace, Region.isClass]
    · intro outer _ goesOn
      rw [isNamespace, nominated] at goesOn
      cases goesOn

/-- From a scope outwards as many levels are needed as scopes lie around it, besides those for the
namespaces and the classes. -/
theorem Sound.searchNested_ends (sound : table.Sound) (only : table.NominatesNamespaces)
    {steps levels : Nat} {id : ScopeId} {searched : List ScopeId} {chain : List (ScopeId × Scope)}
    (ran : table.enclosingWithin steps id = .ok chain)
    (room : chain.length + table.numberOf Region.isNamespace + table.numberOf Region.isClass ≤
      levels) :
    EndsKeeping Local.searched (table.searchNested name levels context id searched) searched := by
  induction steps generalizing levels id searched chain with
  | zero => cases ran
  | succ steps ih =>
    rcases of_enclosingWithin ran with ⟨scope, rest, read, rfl, further⟩
    rw [List.length_cons] at room
    cases levels with
    | zero => omega
    | succ levels =>
      refine sound.level_ends read ?_ ?_ ?_
      · intro target link before _ _ fresh
        have left : table.leftOf Region.isNamespace before ≤ _ := leftOf_le (List.nil_subset _)
        rw [leftOf_nil] at left
        exact sound.searchNested_nominated only rfl
          (only id target (linked_of_scope read Region.nominated ▸ link)) fresh (by omega)
      · intro isClass
        exact sound.inheritedNested_ends read isClass (by omega) context
      · intro outer around _ before
        exact ih (further outer around) (by omega)

/-- Unqualified lookup ends, however the using-directives and the bases run in circles.  On a sound
table whose scopes do not enclose themselves and whose using-directives nominate namespaces it has a
result for every name from every scope, and it nests at most as deep as there are scopes around the
first one, namespaces and classes in the table. -/
theorem lookupUnqualified_nests (sound : table.Sound) (acyclic : table.Acyclic)
    (only : table.NominatesNamespaces) {scope : ScopeId} (inside : table.HasScope scope) :
    ∃ chain result, table.enclosing scope = .ok chain ∧
      table.lookupUnqualified scope name context = .ok result ∧
      table.lookupNested (chain.length + table.numberOf Region.isNamespace +
        table.numberOf Region.isClass) scope name context = .ok result := by
  rcases acyclic.ends sound inside with ⟨chain, walked, few⟩
  have ends : EndsKeeping Local.searched (table.searchNested name (chain.length +
      table.numberOf Region.isNamespace + table.numberOf Region.isClass) context scope []) [] :=
    sound.searchNested_ends only walked le_rfl
  rcases ends with ⟨here, ran, _⟩
  have most : ∀ kind, table.numberOf kind ≤ table.scopes.size := by
    intro kind
    have short : table.numberOf kind ≤ table.scopeIds.length := List.countP_le_length
    simpa [scopeIds] using short
  have enough : chain.length + table.numberOf Region.isNamespace + table.numberOf Region.isClass ≤
      table.searchBound := by
    have namespaces := most Region.isNamespace
    have classes := most Region.isClass
    have square : table.searchBound = table.scopes.size * table.scopes.size +
        4 * table.scopes.size + 4 := by
      unfold searchBound
      rw [Nat.mul_add, Nat.add_mul]
      omega
    omega
  have whole := (sound.searchNested_refines enough context scope []).ok ran
  refine ⟨chain, here.found, walked, ?_, ?_⟩
  · unfold lookupUnqualified
    rw [whole]
    rfl
  · unfold lookupNested
    rw [ran]
    rfl

/-- A namespace and its parent that nominate each other, and two classes that are bases of each
other. -/
def twoCircles : Table where
  scopes := #[⟨.namespaceBody .empty [] [⟨1⟩], none, [⟨1⟩, ⟨2⟩, ⟨3⟩], []⟩,
    ⟨.namespaceBody ⟨[0x81, 0x41]⟩ [] [⟨0⟩], some ⟨0⟩, [], []⟩,
    ⟨.classBody ⟨[0x81, 0x42]⟩ 0 [⟨3⟩], some ⟨0⟩, [], []⟩,
    ⟨.classBody ⟨[0x81, 0x43]⟩ 0 [⟨2⟩], some ⟨0⟩, [], []⟩]
  symbols := #[]
  nodeScopes := []
  searchesBases := true

theorem twoCircles_acyclic : twoCircles.Acyclic := by
  apply acyclic_of_created_later
  intro index scope outer found around
  match index with
  | 0 => cases found; cases around
  | 1 | 2 | 3 => cases found; cases around; decide
  | _ + 4 => cases found

/-- The bound inside one of the classes: two scopes outwards, two namespaces and two classes. -/
theorem lookupUnqualified_nests_twoCircles :
    ∃ chain result, twoCircles.enclosing ⟨2⟩ = .ok chain ∧
      twoCircles.lookupUnqualified ⟨2⟩ ⟨[0x81, 0x78]⟩ {} = .ok result ∧
      twoCircles.lookupNested (chain.length + twoCircles.numberOf Region.isNamespace +
        twoCircles.numberOf Region.isClass) ⟨2⟩ ⟨[0x81, 0x78]⟩ {} = .ok result :=
  lookupUnqualified_nests (by decide) twoCircles_acyclic
    (nominatesNamespaces_of_isNamespace (by decide)) (by decide)

/-- Two levels are too few there: a class, its base, and the class again. -/
example : twoCircles.lookupNested 2 ⟨2⟩ ⟨[0x81, 0x78]⟩ {} = .error .endless := rfl

end Table
end CppNames
