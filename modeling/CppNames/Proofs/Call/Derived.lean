import CppNames.Call.Conversion
import CppNames.Proofs.Table.Change
import Mathlib.Logic.Relation

namespace CppNames

/-!
# Direct and indirect bases

Whether a class derives from another one is decided by a search with a list of classes that are
still to be taken up.  A class comes into that list as often as it is a base, and only when it is
taken up the search sees that it was there before.  The bases may be shared and may run in
circles, so neither the end of the search nor its answer is evident.

`Searches` is the search as a relation, with the classes that it expands.  An expanded class is
among the visited ones from then on, hence none is expanded twice.  Each class that is taken up
was put there by the expansion of another one, and so many expansions are bounded by the base
clauses of the table.  `Pursues` links the classes visited and those still to come with the paths
along bases: nothing else is among them, and a base of a visited class is not left out.  When
nothing is left, the visited classes are all classes on such paths, and none of them has the base
that is looked for.
-/

namespace Table

/-- Whether a class lists another one among its bases. -/
def HasBase (table : Table) (derived base : ScopeId) : Prop :=
  base ∈ table.linked Region.bases derived

/-- A search through base classes: the classes visited before and those that are still to be
taken up, how it ends, and the classes whose bases it looks at. -/
inductive Searches (table : Table) (base : ScopeId) :
    List ScopeId → List ScopeId → Outcome Bool → List ScopeId → Prop where
  | exhausted {visited : List ScopeId} : Searches table base visited [] (.ok false) []
  | again {visited pending expanded : List ScopeId} {next : ScopeId} {outcome : Outcome Bool}
      (old : next ∈ visited) (behind : Searches table base visited pending outcome expanded) :
    Searches table base visited (next :: pending) outcome expanded
  | missing {visited pending : List ScopeId} {next : ScopeId} (fresh : next ∉ visited)
      (outside : ¬ table.HasScope next) :
    Searches table base visited (next :: pending) (.error .dangling) []
  | found {visited pending : List ScopeId} {next : ScopeId} (fresh : next ∉ visited)
      (inside : table.HasScope next) (has : table.HasBase next base) :
    Searches table base visited (next :: pending) (.ok true) [next]
  | onward {visited pending expanded : List ScopeId} {next : ScopeId} {outcome : Outcome Bool}
      (fresh : next ∉ visited) (inside : table.HasScope next) (lacks : ¬ table.HasBase next base)
      (behind : Searches table base (next :: visited)
        ((table.linked Region.bases next).reverse ++ pending) outcome expanded) :
    Searches table base visited (next :: pending) outcome (next :: expanded)

/-- What a search may tell of two classes. -/
inductive Decides (table : Table) (derived base : ScopeId) : Outcome Bool → Prop where
  | derives (path : Relation.TransGen table.HasBase derived base) :
    Decides table derived base (.ok true)
  | apart (none : ¬ Relation.TransGen table.HasBase derived base) :
    Decides table derived base (.ok false)
  /-- A class on the way is not in the table. -/
  | missing {scope : ScopeId} (path : Relation.ReflTransGen table.HasBase derived scope)
      (outside : ¬ table.HasScope scope) : Decides table derived base (.error .dangling)

variable {table : Table} {derived base : ScopeId} {visited pending expanded : List ScopeId}
  {outcome : Outcome Bool}

/-! ## The end of the search -/

/-- The bases of the classes that are not visited yet. -/
def basesAhead (table : Table) (visited : List ScopeId) : List ScopeId :=
  (table.scopeIds.filter (· ∉ visited)).flatMap (table.linked Region.bases)

/-- With no class visited, all base clauses of the table are ahead. -/
theorem basesAhead_nil (table : Table) :
    table.basesAhead [] = table.scopes.toList.flatMap (·.region.bases) := by
  have lists : table.scopeIds.map (table.linked Region.bases) =
      table.scopes.toList.map (·.region.bases) := by
    refine List.ext_getElem (by simp [scopeIds]) fun index first second => ?_
    have inside : index < table.scopes.size := by simpa using second
    have read : table.scope ⟨index⟩ = .ok table.scopes[index] :=
      scope_eq_ok_iff.mpr (Array.getElem?_eq_getElem inside)
    simp [scopeIds, linked_of_scope read]
  have all : table.scopeIds.filter (fun id => decide (id ∉ ([] : List ScopeId))) = table.scopeIds :=
    List.filter_eq_self.mpr fun id _ => decide_eq_true List.not_mem_nil
  unfold basesAhead
  rw [all, List.flatMap_def, List.flatMap_def]
  exact congrArg List.flatten lists

theorem nodup_scopeIds (table : Table) : table.scopeIds.Nodup :=
  List.nodup_range.map fun _ _ same => ScopeId.mk.inj same

/-- The bases of a class are ahead until it is visited. -/
theorem length_basesAhead_cons {next : ScopeId} (inside : table.HasScope next)
    (fresh : next ∉ visited) :
    (table.basesAhead visited).length =
      (table.linked Region.bases next).length + (table.basesAhead (next :: visited)).length := by
  have ahead : next ∈ table.scopeIds.filter (· ∉ visited) :=
    List.mem_filter.mpr ⟨mem_scopeIds.mpr inside, decide_eq_true fresh⟩
  have others : (table.scopeIds.filter (· ∉ visited)).erase next =
      table.scopeIds.filter (· ∉ next :: visited) := by
    rw [(table.nodup_scopeIds.filter _).erase_eq_filter, List.filter_filter]
    refine List.filter_congr fun id _ => ?_
    by_cases same : id = next <;> simp [same]
  have parts := (List.perm_cons_erase ahead).flatMap_right (table.linked Region.bases)
  rw [others, List.flatMap_cons] at parts
  exact parts.length_eq.trans List.length_append

/-- A search ends within as many steps as there are base clauses ahead and classes still to be
taken up. -/
theorem searches_reachesWithin {steps : Nat}
    (room : (table.basesAhead visited).length + pending.length < steps) :
    ∃ expanded, table.Searches base visited pending
      (table.reachesWithin base steps visited pending) expanded := by
  induction steps generalizing visited pending with
  | zero => exact absurd room (Nat.not_lt_zero _)
  | succ steps ih =>
    cases pending with
    | nil => exact ⟨[], .exhausted⟩
    | cons next pending =>
      rw [List.length_cons] at room
      unfold reachesWithin
      by_cases old : next ∈ visited
      · rw [if_pos old]
        have roomBehind : (table.basesAhead visited).length + pending.length < steps := by omega
        rcases ih roomBehind with ⟨expanded, behind⟩
        exact ⟨expanded, .again old behind⟩
      rw [if_neg old]
      by_cases inside : table.HasScope next
      · rcases scope_of_hasScope inside with ⟨scope, read⟩
        rw [read, Outcome.ok_bind, ← linked_of_scope read Region.bases]
        by_cases has : table.HasBase next base
        · exact ⟨[next], (if_pos has).symm ▸ .found old inside has⟩
        · have fewer := length_basesAhead_cons inside old
          have roomBehind : (table.basesAhead (next :: visited)).length +
              ((table.linked Region.bases next).reverse ++ pending).length < steps := by
            rw [List.length_append, List.length_reverse]
            omega
          rcases ih roomBehind with ⟨expanded, behind⟩
          exact ⟨next :: expanded, (if_neg has).symm ▸ .onward old inside has behind⟩
      · rw [scope_of_outside inside]
        exact ⟨[], .missing old inside⟩

theorem searches_inherits (table : Table) (derived base : ScopeId) :
    ∃ expanded, table.Searches base [] [derived] (table.inherits derived base) expanded := by
  refine searches_reachesWithin ?_
  rw [basesAhead_nil]
  exact Nat.lt_succ_self _

/-! ## What is expanded -/

/-- No class is expanded that was visited before, and none twice. -/
theorem Searches.nodup (searches : table.Searches base visited pending outcome expanded) :
    expanded.Nodup ∧ ∀ scope ∈ expanded, scope ∉ visited := by
  induction searches with
  | exhausted | missing => exact ⟨.nil, fun scope member => absurd member List.not_mem_nil⟩
  | again _ _ ih => exact ih
  | found fresh => exact ⟨List.nodup_singleton _, List.forall_mem_singleton.mpr fresh⟩
  | onward fresh _ _ _ ih =>
    rcases ih with ⟨distinct, apart⟩
    refine ⟨List.nodup_cons.mpr ⟨fun twice => apart _ twice (List.mem_cons_self ..), distinct⟩, ?_⟩
    exact List.forall_mem_cons.mpr
      ⟨fresh, fun scope member old => apart scope member (List.mem_cons_of_mem _ old)⟩

/-! ## What the search knows -/

/-- A search under way that began with a class: it knows classes on paths from there, and it has
gone along every base of those that it visited, without meeting the base that it looks for. -/
structure Pursues (table : Table) (derived base : ScopeId) (visited pending : List ScopeId) :
    Prop where
  begun : derived ∈ visited ∨ derived ∈ pending
  reached : ∀ scope ∈ visited, Relation.ReflTransGen table.HasBase derived scope
  ahead : ∀ scope ∈ pending, Relation.ReflTransGen table.HasBase derived scope
  closed : ∀ scope ∈ visited, ∀ next, table.HasBase scope next →
    next ≠ base ∧ (next ∈ visited ∨ next ∈ pending)

namespace Pursues

variable {next : ScopeId}

theorem start (table : Table) (derived base : ScopeId) :
    table.Pursues derived base [] [derived] where
  begun := .inr (List.mem_singleton_self _)
  reached _ member := absurd member List.not_mem_nil
  ahead := List.forall_mem_singleton.mpr .refl
  closed _ member := absurd member List.not_mem_nil

/-- Passing over a class that was visited before loses nothing. -/
theorem again (pursues : table.Pursues derived base visited (next :: pending))
    (old : next ∈ visited) : table.Pursues derived base visited pending := by
  have still : ∀ scope, scope ∈ visited ∨ scope ∈ next :: pending →
      scope ∈ visited ∨ scope ∈ pending := by
    rintro scope (known | member)
    · exact .inl known
    · rcases List.mem_cons.mp member with rfl | member
      · exact .inl old
      · exact .inr member
  refine ⟨still _ pursues.begun, pursues.reached, (List.forall_mem_cons.mp pursues.ahead).2, ?_⟩
  intro scope member other has
  rcases pursues.closed scope member other has with ⟨differ, known⟩
  exact ⟨differ, still _ known⟩

/-- Taking up a class without the base leaves its bases to be taken up. -/
theorem onward (pursues : table.Pursues derived base visited (next :: pending))
    (lacks : ¬ table.HasBase next base) :
    table.Pursues derived base (next :: visited)
      ((table.linked Region.bases next).reverse ++ pending) := by
  have still : ∀ scope, scope ∈ visited ∨ scope ∈ next :: pending →
      scope ∈ next :: visited ∨ scope ∈ (table.linked Region.bases next).reverse ++ pending := by
    rintro scope (known | member)
    · exact .inl (List.mem_cons_of_mem _ known)
    · rcases List.mem_cons.mp member with rfl | member
      · exact .inl (List.mem_cons_self ..)
      · exact .inr (List.mem_append_right _ member)
  rcases List.forall_mem_cons.mp pursues.ahead with ⟨path, others⟩
  refine ⟨still _ pursues.begun, List.forall_mem_cons.mpr ⟨path, pursues.reached⟩, ?_, ?_⟩
  · exact List.forall_mem_append.mpr
      ⟨fun other member => path.tail (List.mem_reverse.mp member), others⟩
  · intro scope member other has
    rcases List.mem_cons.mp member with rfl | old
    · refine ⟨fun same => lacks (same ▸ has), .inr ?_⟩
      exact List.mem_append_left _ (List.mem_reverse.mpr has)
    · rcases pursues.closed scope old other has with ⟨differ, known⟩
      exact ⟨differ, still _ known⟩

/-- When nothing is left, every class on a path from the first one was visited. -/
theorem mem_visited (pursues : table.Pursues derived base visited []) {scope : ScopeId}
    (path : Relation.ReflTransGen table.HasBase derived scope) : scope ∈ visited := by
  induction path with
  | refl => exact pursues.begun.resolve_right List.not_mem_nil
  | tail _ has member => exact (pursues.closed _ member _ has).2.resolve_right List.not_mem_nil

end Pursues

/-- What a search tells is so. -/
theorem Searches.decides (searches : table.Searches base visited pending outcome expanded)
    (pursues : table.Pursues derived base visited pending) :
    table.Decides derived base outcome := by
  induction searches with
  | exhausted =>
    refine .apart fun path => ?_
    rcases Relation.TransGen.tail'_iff.mp path with ⟨last, front, has⟩
    exact (pursues.closed last (pursues.mem_visited front) base has).1 rfl
  | again old _ ih => exact ih (pursues.again old)
  | missing _ outside => exact .missing (pursues.ahead _ (List.mem_cons_self ..)) outside
  | found _ _ has => exact .derives (.tail' (pursues.ahead _ (List.mem_cons_self ..)) has)
  | onward _ _ lacks _ ih => exact ih (pursues.onward lacks)

/-- Where no class on the way is missing, there is an answer. -/
theorem Decides.exists_answer (decides : table.Decides derived base outcome)
    (whole : ∀ scope, Relation.ReflTransGen table.HasBase derived scope → table.HasScope scope) :
    ∃ answer, outcome = .ok answer ∧
      (answer = true ↔ Relation.TransGen table.HasBase derived base) := by
  cases decides with
  | derives path => exact ⟨true, rfl, iff_of_true rfl path⟩
  | apart none => exact ⟨false, rfl, iff_of_false Bool.false_ne_true none⟩
  | missing path outside => exact absurd (whole _ path) outside

/-- In a sound table no class on the way is missing. -/
theorem Sound.hasScope_of_path (sound : table.Sound) (inside : table.HasScope derived)
    {scope : ScopeId} (path : Relation.ReflTransGen table.HasBase derived scope) :
    table.HasScope scope := by
  induction path with
  | refl => exact inside
  | tail _ has _ => exact sound.linked vouched_bases has

end Table

namespace Conversion

variable {sites : Sites} {argument parameter : Encoding} {derived base : ScopeId}

theorem derives_eq_inherits (named : sites.argument.classScope? argument = .ok (some derived))
    (namedToo : sites.parameter.classScope? parameter = .ok (some base)) :
    derives sites argument parameter = sites.argument.table.inherits derived base := by
  unfold derives
  rw [named, namedToo]
  rfl

/-- Of two types that name classes it is told whether the second class is reached from the first
one along at least one base, in whatever way the bases are shared or run in circles.  The search
looks at the bases of no class twice.  It ends without an answer only where a class on such a way
is not in the table, so it has one in every table whose bases are there. -/
theorem derives_searches (named : sites.argument.classScope? argument = .ok (some derived))
    (namedToo : sites.parameter.classScope? parameter = .ok (some base)) :
    (∃ expanded, sites.argument.table.Searches base [] [derived]
        (derives sites argument parameter) expanded ∧ expanded.Nodup) ∧
      sites.argument.table.Decides derived base (derives sites argument parameter) ∧
      ((∀ scope, Relation.ReflTransGen sites.argument.table.HasBase derived scope →
          sites.argument.table.HasScope scope) →
        ∃ answer, derives sites argument parameter = .ok answer ∧
          (answer = true ↔ Relation.TransGen sites.argument.table.HasBase derived base)) := by
  rw [derives_eq_inherits named namedToo]
  rcases sites.argument.table.searches_inherits derived base with ⟨expanded, searches⟩
  have decides := searches.decides (.start _ derived base)
  exact ⟨⟨expanded, searches, searches.nodup.1⟩, decides, decides.exists_answer⟩

/-- The classes `D`, `L`, `R`, `T` and `U` at file level: the first has two bases that share one,
which has the first one as its base, and the last stands alone. -/
def circularClasses : Table where
  scopes := #[
    ⟨.namespaceBody .empty [] [], none, [⟨1⟩, ⟨2⟩, ⟨3⟩, ⟨4⟩, ⟨5⟩],
      [⟨⟨[0x81, 0x44]⟩, [⟨0⟩]⟩, ⟨⟨[0x81, 0x55]⟩, [⟨1⟩]⟩]⟩,
    ⟨.classBody ⟨[0x81, 0x44]⟩ 1 [⟨2⟩, ⟨3⟩], some Table.global, [], []⟩,
    ⟨.classBody ⟨[0x81, 0x4c]⟩ 2 [⟨4⟩], some Table.global, [], []⟩,
    ⟨.classBody ⟨[0x81, 0x52]⟩ 3 [⟨4⟩], some Table.global, [], []⟩,
    ⟨.classBody ⟨[0x81, 0x54]⟩ 4 [⟨1⟩], some Table.global, [], []⟩,
    ⟨.classBody ⟨[0x81, 0x55]⟩ 5 [], some Table.global, [], []⟩]
  symbols := #[
    ⟨⟨[0x81, 0x44]⟩, .classType true, ⟨[0x81, 0x44]⟩, Table.global, 1, none, [1], some ⟨1⟩⟩,
    ⟨⟨[0x81, 0x55]⟩, .classType true, ⟨[0x81, 0x55]⟩, Table.global, 5, none, [5], some ⟨5⟩⟩]
  nodeScopes := []
  searchesBases := true

@[inherit_doc circularClasses]
def circularSites : Sites := ⟨⟨circularClasses, Table.global⟩, ⟨circularClasses, Table.global⟩⟩

/-- `D` is reached from itself, and `U` is not reached from it. -/
theorem derives_searches_circular :
    circularSites.argument.classScope? ⟨[0x81, 0x44]⟩ = .ok (some ⟨1⟩) ∧
      circularSites.parameter.classScope? ⟨[0x81, 0x55]⟩ = .ok (some ⟨5⟩) ∧
      (∀ scope, Relation.ReflTransGen circularClasses.HasBase ⟨1⟩ scope →
        circularClasses.HasScope scope) ∧
      derives circularSites ⟨[0x81, 0x44]⟩ ⟨[0x81, 0x55]⟩ = .ok false ∧
      ¬ Relation.TransGen circularClasses.HasBase ⟨1⟩ ⟨5⟩ ∧
      derives circularSites ⟨[0x81, 0x44]⟩ ⟨[0x81, 0x44]⟩ = .ok true ∧
      Relation.TransGen circularClasses.HasBase ⟨1⟩ ⟨1⟩ := by
  have first : circularSites.argument.classScope? ⟨[0x81, 0x44]⟩ = .ok (some ⟨1⟩) := rfl
  have last : circularSites.parameter.classScope? ⟨[0x81, 0x55]⟩ = .ok (some ⟨5⟩) := rfl
  have sound : circularClasses.Sound := by decide
  have whole : ∀ scope, Relation.ReflTransGen circularClasses.HasBase ⟨1⟩ scope →
      circularClasses.HasScope scope :=
    fun scope path => sound.hasScope_of_path (by decide) path
  have apart : derives circularSites ⟨[0x81, 0x44]⟩ ⟨[0x81, 0x55]⟩ = .ok false :=
    (derives_eq_inherits first last).trans rfl
  have circular : derives circularSites ⟨[0x81, 0x44]⟩ ⟨[0x81, 0x44]⟩ = .ok true :=
    (derives_eq_inherits first first).trans rfl
  rcases (derives_searches first last).2.2 whole with ⟨answer, told, none⟩
  rcases (derives_searches first first).2.2 whole with ⟨answerToo, toldToo, path⟩
  cases apart.symm.trans told
  cases circular.symm.trans toldToo
  exact ⟨first, last, whole, apart, fun path => Bool.false_ne_true (none.mpr path), circular,
    path.mp rfl⟩

end Conversion
end CppNames
