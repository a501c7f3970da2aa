import CppNames.Proofs.Lookup.Closure
import Mathlib.Data.List.Forall2

namespace CppNames

/-!
# What a qualified name finds

The search theorems are put together for the lookup of a name behind `X::`.  Namespaces and
functions are searched along using-directives, classes along bases.  What is found is
described by the paths of the table alone, so the order in which using-directives and bases
were written cannot show in which symbols are found, only in their order.
-/

/-- The links along which qualified lookup goes on from a region that lacks a name. -/
def Region.memberLinks? : Region → Option Table.Links
  | .namespaceBody .. | .functionBody .. => some Region.nominated
  | .classBody .. => some Region.bases
  | _ => none

/-- The region without its links. -/
def Region.unlinked : Region → Region
  | .namespaceBody name fragments _ => .namespaceBody name fragments []
  | .classBody name specifier _ => .classBody name specifier []
  | .functionBody name declaration parameters _ => .functionBody name declaration parameters []
  | .block node _ => .block node []
  | other => other

theorem Region.memberLinks?_unlinked (region : Region) :
    region.unlinked.memberLinks? = region.memberLinks? := by
  cases region <;> rfl

theorem Region.isClass_unlinked (region : Region) : region.unlinked.isClass = region.isClass := by
  cases region <;> rfl

theorem Region.parameters?_unlinked (region : Region) :
    region.unlinked.parameters? = region.parameters? := by
  cases region <;> rfl

/-- Two scopes that differ at most in the order of their links. -/
structure Scope.Reorders (left right : Scope) : Prop where
  region : left.region.unlinked = right.region.unlinked
  nominated : left.region.nominated.Perm right.region.nominated
  bases : left.region.bases.Perm right.region.bases
  outer : left.outer = right.outer
  bindings : left.bindings = right.bindings

theorem Scope.Reorders.symm {left right : Scope} (same : left.Reorders right) :
    right.Reorders left :=
  ⟨same.region.symm, same.nominated.symm, same.bases.symm, same.outer.symm, same.bindings.symm⟩

theorem Scope.Reorders.named? {left right : Scope} (same : left.Reorders right) (id : ScopeId) :
    id ∈ left.region.named? ↔ id ∈ right.region.named? := by
  have parameters : left.region.parameters? = right.region.parameters? := by
    rw [← Region.parameters?_unlinked, same.region, Region.parameters?_unlinked]
  simp only [Region.named?, List.mem_append, same.nominated.mem_iff, same.bases.mem_iff,
    parameters]

namespace Table

/-- Two tables that differ at most in the order of the links of their scopes. -/
structure Reorders (left right : Table) : Prop where
  symbols : left.symbols = right.symbols
  scopes : List.Forall₂ Scope.Reorders left.scopes.toList right.scopes.toList

variable {left right table : Table} {name : Encoding} {context : LookupContext}

/-! ## Tables that differ in the order of links -/

theorem Reorders.symm (same : left.Reorders right) : right.Reorders left where
  symbols := same.symbols.symm
  scopes := List.Forall₂.flip (same.scopes.imp fun _ _ scopes => scopes.symm)

theorem Reorders.size (same : left.Reorders right) : left.scopes.size = right.scopes.size := by
  simpa using same.scopes.length_eq

theorem Reorders.scope (same : left.Reorders right) {id : ScopeId} {scope : Scope}
    (read : left.scope id = .ok scope) :
    ∃ other, right.scope id = .ok other ∧ scope.Reorders other := by
  have inside : id.index < left.scopes.toList.length := hasScope_of_scope read
  have insideRight : id.index < right.scopes.toList.length := same.scopes.length_eq ▸ inside
  have related := (List.forall₂_iff_get.mp same.scopes).2 id.index inside insideRight
  refine ⟨right.scopes.toList.get ⟨id.index, insideRight⟩, ?_, ?_⟩
  · exact scope_eq_ok_iff.mpr (Array.getElem?_eq_getElem insideRight)
  · have shown := scope_eq_ok_iff.mp read
    rw [Array.getElem?_eq_getElem inside] at shown
    exact Option.some.inj shown ▸ related

theorem Reorders.visible (same : left.Reorders right) (ids : List SymbolId) :
    left.visible ids context = right.visible ids context := by
  have symbol : left.symbol = right.symbol := by
    funext id
    simp only [Table.symbol, same.symbols]
  simp only [Table.visible, Table.ofKind, symbol]

theorem Reorders.members (same : left.Reorders right) {id : ScopeId} (inside : left.HasScope id) :
    left.members name context id = right.members name context id := by
  rcases scope_of_hasScope inside with ⟨scope, read⟩
  rcases same.scope read with ⟨other, readRight, scopes⟩
  have named : scope.named name = other.named name := by
    simp only [Scope.named, scopes.bindings]
  simp only [Table.members, Table.find, read, readRight, bind, Except.bind, named, same.visible]

theorem Reorders.linked (same : left.Reorders right) {links : Links}
    (which : links = Region.nominated ∨ links = Region.bases) {id target : ScopeId}
    (link : target ∈ left.linked links id) : target ∈ right.linked links id := by
  unfold Table.linked at link
  split at link
  · next scope read =>
    rcases same.scope read with ⟨other, readRight, scopes⟩
    rw [linked_of_scope readRight]
    rcases which with rfl | rfl
    · exact scopes.nominated.mem_iff.mp link
    · exact scopes.bases.mem_iff.mp link
  · cases link

theorem vouched_of_which {links : Links} (which : links = Region.nominated ∨ links = Region.bases) :
    Vouched links := by
  rcases which with rfl | rfl
  · exact vouched_nominated
  · exact vouched_bases

theorem Reorders.leadsTo (same : left.Reorders right) (sound : left.Sound) {links : Links}
    (which : links = Region.nominated ∨ links = Region.bases) {scope target : ScopeId}
    (path : LeadsTo left links name context scope target) :
    LeadsTo right links name context scope target ∧ left.HasScope target := by
  induction path with
  | link member => exact ⟨.link (same.linked which member), sound.linked (vouched_of_which which) member⟩
  | beyond member lacks _ ih =>
    have inside := sound.linked (vouched_of_which which) member
    exact ⟨.beyond (same.linked which member) (same.members inside ▸ lacks) ih.1, ih.2⟩

theorem Reorders.sound (same : left.Reorders right) (sound : left.Sound) : right.Sound := by
  have hasScope : ∀ id, left.HasScope id → right.HasScope id := by
    intro id inside
    unfold HasScope at inside ⊢
    rw [← same.size]; exact inside
  intro other member
  rcases List.mem_iff_getElem.mp member with ⟨index, inside, found⟩
  have read : right.scope ⟨index⟩ = .ok other := by
    refine scope_eq_ok_iff.mpr ?_
    rw [← found]
    exact Array.getElem?_eq_getElem inside
  rcases same.symm.scope read with ⟨scope, readLeft, scopes⟩
  have links := sound.scope readLeft
  exact {
    outer := fun id member => hasScope id (links.outer id (scopes.outer ▸ member))
    region := fun id member => hasScope id (links.region id ((scopes.named? id).mp member))
    symbols := fun binding member id inside => by
      have old := links.symbols binding (scopes.bindings ▸ member) id inside
      unfold HasSymbol at old ⊢
      rw [← same.symbols]; exact old
    distinct := fun binding member => links.distinct binding (scopes.bindings ▸ member) }

/-! ## The members of a scope -/

theorem which_of_memberLinks {region : Region} {links : Links}
    (kind : region.memberLinks? = some links) :
    links = Region.nominated ∨ links = Region.bases := by
  cases region <;> simp_all [Region.memberLinks?]

/-- What a lookup behind `X::` is for that may go beyond `X`.  A name that is being declared
is not searched through using-directives, unless it is written as a template-id. -/
def MayGoOn (region : Region) (name : Encoding) (context : LookupContext) : Prop :=
  region.isClass = true ∨ (context.declaration && name.isSimpleName) = false

/-- A lookup that finds the own names of a scope, or else the members of the scopes that its
links lead to. -/
structure FindsMembers (table : Table) (links : Links) (name : Encoding) (context : LookupContext)
    (scope : ScopeId) (result : SymbolSet) : Prop where
  definite : result.dependent = false
  distinct : result.ids.Nodup
  own : table.members name context scope ≠ [] → result.ids = table.members name context scope
  linked : table.members name context scope = [] → ∀ id, id ∈ result.ids ↔
    ∃ target, LeadsTo table links name context scope target ∧
      id ∈ table.members name context target

theorem FindsMembers.ofOwn {links : Links} {scope : ScopeId}
    (distinct : (table.members name context scope).Nodup)
    (has : table.members name context scope ≠ []) :
    FindsMembers table links name context scope ⟨table.members name context scope, false⟩ where
  definite := rfl
  distinct := distinct
  own _ := rfl
  linked lacks := absurd lacks has

theorem FindsMembers.ofExplored {links : Links} {scope : ScopeId} {after : Search}
    (lacks : table.members name context scope = [])
    (explored : Explored table links name context ⟨{}, [scope]⟩ (table.linked links scope) after) :
    FindsMembers table links name context scope after.found where
  definite := explored.dependent
  distinct := explored.nodup List.nodup_nil
  own has := absurd lacks has
  linked _ := explored.mem_found_iff (.self lacks) rfl

/-- Where a namespace or a function lacks a name, its using-directives are searched. -/
theorem Sound.lookupQualified_nominated (sound : table.Sound) {scope : ScopeId} {found : Scope}
    (read : table.scope scope = .ok found)
    (links : found.region.memberLinks? = some Region.nominated)
    (goesOn : (context.declaration && name.isSimpleName) = false)
    (noClass : found.region.isClass = false) :
    ∃ result, table.lookupQualified scope name context = .ok result ∧
      FindsMembers table Region.nominated name context scope result := by
  have inside := hasScope_of_scope read
  rcases sound.find inside name context with ⟨own, distinct⟩
  have run : table.lookupQualified scope name context =
      if (table.members name context scope).isEmpty then
        table.searchAll Region.nominated name context [scope] (table.linked Region.nominated scope)
      else .ok ⟨table.members name context scope, false⟩ := by
    rw [linked_of_scope read]
    unfold lookupQualified
    rw [read]
    cases region : found.region <;>
      cases empty : (table.members name context scope).isEmpty <;>
      simp_all [Region.memberLinks?, Region.isClass, SymbolSet.isEmpty, bind, Except.bind, pure,
        Except.pure]
  by_cases lacks : table.members name context scope = []
  · rcases sound.searchAll vouched_nominated [scope] (table.linked Region.nominated scope)
      (fun start member => sound.linked vouched_nominated member) with ⟨after, ran, explored⟩
    refine ⟨after.found, ?_, FindsMembers.ofExplored lacks explored⟩
    rw [run, lacks]
    exact ran
  · refine ⟨_, ?_, FindsMembers.ofOwn distinct lacks⟩
    rw [run, if_neg (by simpa using lacks)]

/-- A class is searched as the first scope of a search through its bases. -/
theorem Sound.searchAll_singleton (sound : table.Sound) {links : Links} (vouched : Vouched links)
    {scope : ScopeId} (inside : table.HasScope scope) :
    ∃ result, table.searchAll links name context [] [scope] = .ok result ∧
      FindsMembers table links name context scope result := by
  rcases sound.find inside name context with ⟨own, distinct⟩
  rcases scope_of_hasScope inside with ⟨found, read⟩
  have linked := linked_of_scope read links
  simp only [Table.searchAll, List.foldlM_cons, List.foldlM_nil, searchWithin, List.not_mem_nil,
    if_false, own, read, bind, Except.bind, pure, Except.pure]
  by_cases lacks : table.members name context scope = []
  · have fewer := unvisited_cons_lt inside (List.not_mem_nil)
    have bound := table.unvisited_le_size []
    rcases explores_foldlM table.scopes.size (table.linked links scope)
        (fun target link => sound.explores_searchWithin vouched _ target (sound.linked vouched link))
        ⟨{}, [scope]⟩ (by simp only; omega) with
      ⟨after, ran, explored⟩
    have finds := FindsMembers.ofExplored lacks explored
    have same : SymbolSet.union {} after.found = after.found := by
      have ids := SymbolSet.ids_none_union after.found finds.distinct
      exact congrArg₂ SymbolSet.mk ids (by simp)
    refine ⟨after.found, ?_, finds⟩
    simp only [SymbolSet.isEmpty, lacks, ← linked, ran, List.isEmpty_nil, Bool.not_false,
      Bool.and_self, if_true, same]
  · have ids := SymbolSet.ids_none_union ⟨table.members name context scope, false⟩ distinct
    have same : SymbolSet.union {} ⟨table.members name context scope, false⟩ =
        ⟨table.members name context scope, false⟩ := congrArg₂ SymbolSet.mk ids (by simp)
    have some : (table.members name context scope).isEmpty = false := by simpa using lacks
    refine ⟨_, ?_, FindsMembers.ofOwn distinct lacks⟩
    simp only [SymbolSet.isEmpty, some, Bool.false_and, Bool.false_eq_true, if_false, same]

/-- Where a scope has a name itself, a qualified lookup goes no further. -/
theorem Sound.lookupQualified_own (sound : table.Sound) {scope : ScopeId}
    (inside : table.HasScope scope) (has : table.members name context scope ≠ []) :
    table.lookupQualified scope name context = .ok ⟨table.members name context scope, false⟩ := by
  rcases scope_of_hasScope inside with ⟨found, read⟩
  have own := (sound.find inside name context).1
  have some : (table.members name context scope).isEmpty = false := by simpa using has
  unfold Table.lookupQualified
  simp only [read, own, bind, Except.bind, pure, Except.pure]
  cases found.region with
  | classBody =>
    have searched : ∃ result, table.searchAll Region.bases name context [] [scope] = .ok result ∧
        FindsMembers table Region.bases name context scope result :=
      sound.searchAll_singleton vouched_bases inside
    rcases searched with ⟨⟨ids, dependent⟩, ran, finds⟩
    cases finds.definite
    cases finds.own has
    exact ran
  | _ => simp [SymbolSet.isEmpty, some]
/-- Qualified lookup from a scope that links to others ends, and finds the members. -/
theorem Sound.lookupQualified (sound : table.Sound) {scope : ScopeId} {found : Scope}
    (read : table.scope scope = .ok found) {links : Links}
    (kind : found.region.memberLinks? = some links)
    (goesOn : MayGoOn found.region name context) :
    ∃ result, table.lookupQualified scope name context = .ok result ∧
      FindsMembers table links name context scope result := by
  cases isClass : found.region.isClass with
  | false =>
    have same : links = Region.nominated := by
      cases region : found.region <;> simp_all [Region.memberLinks?, Region.isClass]
    subst same
    rcases goesOn with impossible | goesOn
    · rw [isClass] at impossible; cases impossible
    · exact sound.lookupQualified_nominated read kind goesOn isClass
  | true =>
    have same : links = Region.bases := by
      cases region : found.region <;> simp_all [Region.memberLinks?, Region.isClass]
    subst same
    have run : table.lookupQualified scope name context =
        table.searchAll Region.bases name context [] [scope] := by
      unfold Table.lookupQualified
      rw [read]
      cases region : found.region <;> simp_all [Region.isClass, bind, Except.bind]
    rw [run]
    exact sound.searchAll_singleton vouched_bases (hasScope_of_scope read)

/-! ## The order of links -/

theorem Reorders.mem_closure (same : left.Reorders right) (sound : left.Sound) {links : Links}
    (which : links = Region.nominated ∨ links = Region.bases) {scope : ScopeId} {id : SymbolId}
    (closure : ∃ target, LeadsTo left links name context scope target ∧
      id ∈ left.members name context target) :
    ∃ target, LeadsTo right links name context scope target ∧
      id ∈ right.members name context target := by
  rcases closure with ⟨target, path, has⟩
  rcases same.leadsTo sound which path with ⟨moved, inside⟩
  exact ⟨target, moved, same.members inside ▸ has⟩

theorem Reorders.findsMembers (same : left.Reorders right) (sound : left.Sound) {links : Links}
    (which : links = Region.nominated ∨ links = Region.bases) {scope : ScopeId}
    (inside : left.HasScope scope) {result other : SymbolSet}
    (finds : FindsMembers left links name context scope result)
    (findsOther : FindsMembers right links name context scope other) (id : SymbolId) :
    id ∈ result.ids ↔ id ∈ other.ids := by
  have own : left.members name context scope = right.members name context scope :=
    same.members inside
  by_cases lacks : left.members name context scope = []
  · rw [finds.linked lacks, findsOther.linked (own ▸ lacks)]
    exact ⟨same.mem_closure sound which, same.symm.mem_closure (same.sound sound) which⟩
  · rw [finds.own lacks, findsOther.own (own ▸ lacks), own]

/-- Qualified lookup computes a closure.  On a sound table, whatever circles its links run
in, looking a name up in a namespace, a function or a class ends.  It finds the own names of
the scope, each symbol once, and where there are none exactly the members of the scopes that
nonempty paths of using-directives, or of bases, lead to through scopes without the name.
Writing the using-directives or the bases in another order does not change which symbols are
found. -/
theorem lookupQualified_closure (sound : table.Sound) {scope : ScopeId} {found : Scope}
    (read : table.scope scope = .ok found) {links : Links}
    (kind : found.region.memberLinks? = some links)
    (goesOn : MayGoOn found.region name context) :
    ∃ result, table.lookupQualified scope name context = .ok result ∧
      FindsMembers table links name context scope result ∧
      ∀ other : Table, table.Reorders other →
        ∃ same, other.lookupQualified scope name context = .ok same ∧
          ∀ id, id ∈ result.ids ↔ id ∈ same.ids := by
  rcases sound.lookupQualified read kind goesOn with ⟨result, ran, finds⟩
  refine ⟨result, ran, finds, ?_⟩
  intro other reorders
  rcases reorders.scope read with ⟨foundOther, readOther, scopes⟩
  have kindOther : foundOther.region.memberLinks? = some links := by
    rw [← Region.memberLinks?_unlinked, ← scopes.region, Region.memberLinks?_unlinked]
    exact kind
  have goesOnOther : MayGoOn foundOther.region name context := by
    unfold MayGoOn
    rw [← Region.isClass_unlinked, ← scopes.region, Region.isClass_unlinked]
    exact goesOn
  rcases (reorders.sound sound).lookupQualified readOther kindOther goesOnOther with
    ⟨same, ranOther, findsOther⟩
  exact ⟨same, ranOther, reorders.findsMembers sound (which_of_memberLinks kind)
    (hasScope_of_scope read) finds findsOther⟩

/-- Four namespaces of which the first nominates two, both of these the last, and the last the
first again.  Only the last one has a name. -/
def circular : Table where
  scopes := #[⟨.namespaceBody .empty [] [⟨1⟩, ⟨2⟩], none, [], []⟩,
    ⟨.namespaceBody ⟨[0x81, 0x41]⟩ [] [⟨3⟩], some ⟨0⟩, [], []⟩,
    ⟨.namespaceBody ⟨[0x81, 0x42]⟩ [] [⟨3⟩], some ⟨0⟩, [], []⟩,
    ⟨.namespaceBody ⟨[0x81, 0x43]⟩ [] [⟨0⟩], some ⟨0⟩, [], [⟨⟨[0x81, 0x78]⟩, [⟨0⟩]⟩]⟩]
  symbols := #[.ofDeclaration ⟨[0x81, 0x78]⟩ (.object true) ⟨[0x69]⟩ ⟨3⟩ 0 none]
  nodeScopes := []
  searchesBases := true

/-- The closure where the using-directives meet again and run in a circle. -/
theorem lookupQualified_closure_circular :
    circular.Sound ∧
      ∃ result, circular.lookupQualified ⟨0⟩ ⟨[0x81, 0x78]⟩ {} = .ok result ∧
        FindsMembers circular Region.nominated ⟨[0x81, 0x78]⟩ {} ⟨0⟩ result ∧
        ∀ other : Table, circular.Reorders other →
          ∃ same, other.lookupQualified ⟨0⟩ ⟨[0x81, 0x78]⟩ {} = .ok same ∧
            ∀ id, id ∈ result.ids ↔ id ∈ same.ids :=
  ⟨by decide, lookupQualified_closure (by decide) rfl rfl (.inr rfl)⟩

end Table
end CppNames
