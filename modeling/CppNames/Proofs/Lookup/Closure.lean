import CppNames.Lookup.Member
import CppNames.Proofs.Table.Sound

namespace CppNames
namespace Table

/-!
# Qualified lookup is a closure

A name behind `X::` is searched in `X` and, where `X` lacks it, along the links of `X`:
using-directives for namespaces and functions, bases for classes.  The search shares one
set of visited scopes between all branches, and the links may run in circles, so it is not
evident that a scope visited early is never missed later.

`LeadsTo` says what should be searched, without saying how: the ends of all nonempty paths
whose inner scopes lack the name.  `Explored` is what a search does to its state.  Its field
`closed` carries the argument: a scope that the search has visited and that lacks the name
has all its links visited too, whichever branch came there first.  A search that starts from
nothing therefore visits exactly the ends of these paths, and finds exactly their members.
-/

section Search

variable (table : Table) (links : Links) (name : Encoding) (context : LookupContext)

/-- A nonempty path of links whose inner scopes all lack the name. -/
inductive LeadsTo : ScopeId → ScopeId → Prop where
  | link {scope target : ScopeId} : target ∈ table.linked links scope → LeadsTo scope target
  | beyond {scope middle target : ScopeId} : middle ∈ table.linked links scope →
      table.members name context middle = [] → LeadsTo middle target → LeadsTo scope target

/-- Whether a scope lies on a path that begins with one of some scopes. -/
def Reached (starts : List ScopeId) (target : ScopeId) : Prop :=
  ∃ start ∈ starts, target = start ∨
    (table.members name context start = [] ∧ LeadsTo table links name context start target)

/-- What searching some scopes does to the state of a search. -/
structure Explored (before : Search) (starts : List ScopeId) (after : Search) : Prop where
  kept : ∀ scope ∈ before.visited, scope ∈ after.visited
  begun : ∀ scope ∈ starts, scope ∈ after.visited
  /-- A newly visited scope without the name has all its links visited. -/
  closed : ∀ scope ∈ after.visited, scope ∉ before.visited →
    table.members name context scope = [] →
    ∀ target ∈ table.linked links scope, target ∈ after.visited
  reached : ∀ scope ∈ after.visited, scope ∈ before.visited ∨
    Reached table links name context starts scope
  found : ∀ id, id ∈ after.found.ids ↔ id ∈ before.found.ids ∨
    ∃ scope ∈ after.visited, scope ∉ before.visited ∧ id ∈ table.members name context scope
  nodup : before.found.ids.Nodup → after.found.ids.Nodup
  dependent : after.found.dependent = before.found.dependent

/-- Scopes that a search behind a scope may count as visited: none of them has the name, and only
of the scope itself there may be links that were not followed. -/
structure Spent (scope : ScopeId) (visited : List ScopeId) : Prop where
  lacks : ∀ other ∈ visited, table.members name context other = []
  closed : ∀ other ∈ visited, other = scope ∨
    ∀ target ∈ table.linked links other, target ∈ visited

end Search

variable {table : Table} {links : Links} {name : Encoding} {context : LookupContext}

/-! ## Sets of symbols -/

private theorem mem_foldl_including (ids start : List SymbolId) (id : SymbolId) :
    id ∈ ids.foldl Region.including start ↔ id ∈ start ∨ id ∈ ids := by
  induction ids generalizing start with
  | nil => simp
  | cons first rest ih =>
    rw [List.foldl_cons, ih]
    unfold Region.including
    split <;> simp only [List.mem_cons, List.mem_append, List.not_mem_nil, or_false] <;> grind

private theorem nodup_foldl_including (ids start : List SymbolId) (distinct : start.Nodup) :
    (ids.foldl Region.including start).Nodup := by
  induction ids generalizing start with
  | nil => exact distinct
  | cons first rest ih =>
    apply ih
    unfold Region.including
    split
    · exact distinct
    · next fresh =>
      rw [← List.concat_eq_append]
      exact List.Nodup.concat fresh distinct

private theorem foldl_including_eq_append (ids start : List SymbolId)
    (distinct : (start ++ ids).Nodup) : ids.foldl Region.including start = start ++ ids := by
  induction ids generalizing start with
  | nil => simp
  | cons first rest ih =>
    have fresh : first ∉ start := by
      intro member
      exact (List.nodup_append.mp distinct).2.2 first member first (List.mem_cons_self ..) rfl
    have joined : start ++ first :: rest = (start ++ [first]) ++ rest := by simp
    rw [List.foldl_cons, joined]
    simp only [Region.including, if_neg fresh]
    exact ih _ (joined ▸ distinct)

theorem SymbolSet.mem_union (left right : SymbolSet) (id : SymbolId) :
    id ∈ (left.union right).ids ↔ id ∈ left.ids ∨ id ∈ right.ids :=
  mem_foldl_including right.ids left.ids id

theorem SymbolSet.nodup_union (left right : SymbolSet) (distinct : left.ids.Nodup) :
    (left.union right).ids.Nodup :=
  nodup_foldl_including right.ids left.ids distinct

theorem SymbolSet.ids_none_union (right : SymbolSet) (distinct : right.ids.Nodup) :
    (SymbolSet.union {} right).ids = right.ids :=
  foldl_including_eq_append right.ids [] distinct

theorem SymbolSet.isEmpty_iff (set : SymbolSet) :
    set.isEmpty = true ↔ set.ids = [] ∧ set.dependent = false := by
  simp [SymbolSet.isEmpty]

theorem SymbolSet.eq_none_of_isEmpty {set : SymbolSet} (empty : set.isEmpty = true) :
    set = .none :=
  congrArg₂ SymbolSet.mk ((SymbolSet.isEmpty_iff _).mp empty).1 ((SymbolSet.isEmpty_iff _).mp empty).2

/-! ## One search after another -/

/-- Scopes that were visited before add nothing. -/
theorem Explored.visited (search : Search) {starts : List ScopeId}
    (old : ∀ scope ∈ starts, scope ∈ search.visited) :
    Explored table links name context search starts search where
  kept _ member := member
  begun := old
  closed _ member fresh := absurd member fresh
  reached _ member := .inl member
  found id := by
    refine ⟨.inl, ?_⟩
    rintro (old | ⟨scope, member, fresh, _⟩)
    · exact old
    · exact absurd member fresh
  nodup distinct := distinct
  dependent := rfl

theorem Explored.trans {before middle after : Search} {start : ScopeId} {starts : List ScopeId}
    (first : Explored table links name context before [start] middle)
    (second : Explored table links name context middle starts after) :
    Explored table links name context before (start :: starts) after where
  kept scope member := second.kept scope (first.kept scope member)
  begun scope member := by
    rcases List.mem_cons.mp member with same | member
    · exact second.kept scope (first.begun scope (by simp [same]))
    · exact second.begun scope member
  closed scope member fresh lacks target link := by
    by_cases early : scope ∈ middle.visited
    · exact second.kept target (first.closed scope early fresh lacks target link)
    · exact second.closed scope member early lacks target link
  reached scope member := by
    rcases second.reached scope member with early | ⟨from', member', path⟩
    · rcases first.reached scope early with old | ⟨from', member', path⟩
      · exact .inl old
      · exact .inr ⟨from', by simp [List.mem_singleton.mp member'], path⟩
    · exact .inr ⟨from', List.mem_cons_of_mem _ member', path⟩
  found id := by
    rw [second.found, first.found]
    constructor
    · rintro ((old | ⟨scope, member, fresh, has⟩) | ⟨scope, member, fresh, has⟩)
      · exact .inl old
      · exact .inr ⟨scope, second.kept scope member, fresh, has⟩
      · exact .inr ⟨scope, member, fun old => fresh (first.kept scope old), has⟩
    · rintro (old | ⟨scope, member, fresh, has⟩)
      · exact .inl (.inl old)
      · by_cases early : scope ∈ middle.visited
        · exact .inl (.inr ⟨scope, early, fresh, has⟩)
        · exact .inr ⟨scope, member, early, has⟩
  nodup distinct := second.nodup (first.nodup distinct)
  dependent := second.dependent.trans first.dependent

/-- Searching a scope that lacks the name is searching its links from a fresh result, and
adding what is found there. -/
theorem Explored.through {before inner : Search} {scope : ScopeId}
    (fresh : scope ∉ before.visited) (lacks : table.members name context scope = [])
    (behind : Explored table links name context ⟨{}, scope :: before.visited⟩
      (table.linked links scope) inner) :
    Explored table links name context before [scope]
      ⟨before.found.union inner.found, inner.visited⟩ where
  kept other member := behind.kept other (List.mem_cons_of_mem _ member)
  begun other member := by
    rw [List.mem_singleton.mp member]
    exact behind.kept scope (List.mem_cons_self ..)
  closed other member new empty target link := by
    by_cases same : other = scope
    · subst same
      exact behind.begun target link
    · exact behind.closed other member (by simp [same, new]) empty target link
  reached other member := by
    rcases behind.reached other member with old | ⟨start, link, path⟩
    · rcases List.mem_cons.mp old with same | old
      · exact .inr ⟨scope, List.mem_singleton_self _, .inl same⟩
      · exact .inl old
    · refine .inr ⟨scope, List.mem_singleton_self _, .inr ⟨lacks, ?_⟩⟩
      rcases path with same | ⟨empty, path⟩
      · exact same ▸ .link link
      · exact .beyond link empty path
  found id := by
    rw [SymbolSet.mem_union, behind.found]
    constructor
    · rintro (old | none | ⟨other, member, new, has⟩)
      · exact .inl old
      · cases none
      · exact .inr ⟨other, member, fun old => new (List.mem_cons_of_mem _ old), has⟩
    · rintro (old | ⟨other, member, new, has⟩)
      · exact .inl old
      · have different : other ≠ scope := by
          intro same
          rw [same, lacks] at has
          cases has
        exact .inr (.inr ⟨other, member, by simp [different, new], has⟩)
  nodup distinct := SymbolSet.nodup_union _ _ distinct
  dependent := by simp [SymbolSet.union, behind.dependent]

/-- Searching a scope that has the name adds its members and goes no further. -/
theorem Explored.stop {before : Search} {scope : ScopeId} (fresh : scope ∉ before.visited)
    (has : table.members name context scope ≠ []) :
    Explored table links name context before [scope]
      ⟨before.found.union ⟨table.members name context scope, false⟩, scope :: before.visited⟩ where
  kept other member := List.mem_cons_of_mem _ member
  begun other member := by rw [List.mem_singleton.mp member]; exact List.mem_cons_self ..
  closed other member new empty := by
    rcases List.mem_cons.mp member with same | old
    · exact absurd (same ▸ empty) has
    · exact absurd old new
  reached other member := by
    rcases List.mem_cons.mp member with same | old
    · exact .inr ⟨scope, List.mem_singleton_self _, .inl same⟩
    · exact .inl old
  found id := by
    rw [SymbolSet.mem_union]
    constructor
    · rintro (old | member)
      · exact .inl old
      · exact .inr ⟨scope, List.mem_cons_self .., fresh, member⟩
    · rintro (old | ⟨other, member, new, inside⟩)
      · exact .inl old
      · rcases List.mem_cons.mp member with same | old
        · exact .inr (same ▸ inside)
        · exact absurd old new
  nodup distinct := SymbolSet.nodup_union _ _ distinct
  dependent := by simp [SymbolSet.union]

/-! ## The search explores -/

/-- A search that may nest as often as there are scopes left to visit ends, and explores. -/
def Explores (table : Table) (links : Links) (name : Encoding) (context : LookupContext)
    (run : Search → Outcome Search) (steps : Nat) (starts : List ScopeId) : Prop :=
  ∀ before : Search, table.unvisited before.visited < steps →
    ∃ after, run before = .ok after ∧ Explored table links name context before starts after

theorem explores_foldlM (steps : Nat) {step : Search → ScopeId → Outcome Search}
    (starts : List ScopeId)
    (each : ∀ start ∈ starts,
      Explores table links name context (step · start) steps [start]) :
    Explores table links name context (starts.foldlM step) steps starts := by
  induction starts with
  | nil =>
    intro before _
    exact ⟨before, rfl, Explored.visited before (by simp)⟩
  | cons start rest ih =>
    intro before room
    rcases each start (List.mem_cons_self ..) before room with ⟨middle, ran, first⟩
    rcases ih (fun other member => each other (List.mem_cons_of_mem _ member)) middle
        (Nat.lt_of_le_of_lt (unvisited_le first.kept) room) with
      ⟨after, ranRest, second⟩
    refine ⟨after, ?_, first.trans second⟩
    show (start :: rest).foldlM step before = .ok after
    rw [List.foldlM_cons, show step before start = .ok middle from ran]
    exact ranRest

/-- Each level of the recursion visits one more scope. -/
theorem Sound.explores_searchWithin (sound : table.Sound) (vouched : Vouched links)
    (steps : Nat) (scope : ScopeId) (inside : table.HasScope scope) :
    Explores table links name context
      (table.searchWithin links name context steps · scope) steps [scope] := by
  induction steps generalizing scope with
  | zero => exact fun before room => absurd room (Nat.not_lt_zero _)
  | succ steps ih =>
    intro before room
    simp only [searchWithin]
    by_cases old : scope ∈ before.visited
    · rw [if_pos old]
      exact ⟨before, rfl, Explored.visited before (by simp [old])⟩
    · rw [if_neg old]
      rcases sound.find inside name context with ⟨own, _⟩
      rcases scope_of_hasScope inside with ⟨region, read⟩
      simp only [own, read, bind, Except.bind, pure, Except.pure]
      by_cases lacks : table.members name context scope = []
      · have linked := linked_of_scope read links
        have fewer := unvisited_cons_lt inside old
        rcases explores_foldlM steps (table.linked links scope)
            (fun target link => ih target (sound.linked vouched link))
            ⟨{}, scope :: before.visited⟩ (by simp only; omega) with
          ⟨inner, ran, behind⟩
        refine ⟨⟨before.found.union inner.found, inner.visited⟩, ?_,
          Explored.through old lacks behind⟩
        simp only [SymbolSet.isEmpty, lacks, ← linked, ran, List.isEmpty_nil, Bool.not_false,
          Bool.and_self, if_true]
      · refine ⟨⟨before.found.union ⟨table.members name context scope, false⟩,
          scope :: before.visited⟩, ?_, Explored.stop old lacks⟩
        have some : (table.members name context scope).isEmpty = false := by
          simpa using lacks
        simp only [SymbolSet.isEmpty, some, Bool.false_and, Bool.false_eq_true, if_false]

/-- A search of some scopes, apart from those visited before, explores. -/
theorem Sound.searchAll (sound : table.Sound) (vouched : Vouched links)
    (visited starts : List ScopeId) (inside : ∀ start ∈ starts, table.HasScope start) :
    ∃ after, table.searchAll links name context visited starts = .ok after.found ∧
      Explored table links name context ⟨{}, visited⟩ starts after := by
  rcases explores_foldlM (table.scopes.size + 1) starts
      (fun start member => sound.explores_searchWithin vouched _ start (inside start member))
      ⟨{}, visited⟩ (Nat.lt_succ_of_le (unvisited_le_size _)) with
    ⟨after, ran, explored⟩
  refine ⟨after, ?_, explored⟩
  simp only [Table.searchAll, bind, Except.bind, pure, Except.pure, ran]

/-! ## What a search from one scope finds -/

/-- Scopes that are closed under the links of those without the name contain the ends of all
paths from a scope whose links they contain. -/
theorem LeadsTo.mem_of_closed {visited : List ScopeId} {scope target : ScopeId}
    (path : LeadsTo table links name context scope target)
    (closed : ∀ inner ∈ visited, table.members name context inner = [] →
      ∀ target ∈ table.linked links inner, target ∈ visited)
    (begun : ∀ target ∈ table.linked links scope, target ∈ visited) : target ∈ visited := by
  induction path with
  | link member => exact begun _ member
  | beyond member lacks _ ih => exact ih (closed _ (begun _ member) lacks)

theorem Spent.self {scope : ScopeId} (lacks : table.members name context scope = []) :
    Spent table links name context scope [scope] where
  lacks := List.forall_mem_singleton.mpr lacks
  closed _ member := .inl (List.mem_singleton.mp member)

section Behind

variable {scope : ScopeId} {before after : Search}
  (explored : Explored table links name context before (table.linked links scope) after)
include explored

/-- What a search behind a scope visits, it was led to. -/
theorem Explored.leadsTo {target : ScopeId} (member : target ∈ after.visited) :
    target ∈ before.visited ∨ LeadsTo table links name context scope target := by
  rcases explored.reached target member with old | ⟨start, link, same | ⟨empty, path⟩⟩
  · exact .inl old
  · exact .inr (same ▸ .link link)
  · exact .inr (.beyond link empty path)

variable (spent : Spent table links name context scope before.visited)
include spent

/-- That scopes count as visited from the start loses none of their links. -/
theorem Explored.onward {inner : ScopeId} (member : inner ∈ after.visited)
    (lacks : table.members name context inner = []) :
    ∀ target ∈ table.linked links inner, target ∈ after.visited := by
  intro target link
  by_cases old : inner ∈ before.visited
  · rcases spent.closed inner old with same | followed
    · exact explored.begun target (same ▸ link)
    · exact explored.kept target (followed target link)
  · exact explored.closed inner member old lacks target link

/-- A search behind a scope visits the ends of all paths from it. -/
theorem Explored.visited_of_leadsTo {target : ScopeId}
    (path : LeadsTo table links name context scope target) : target ∈ after.visited :=
  path.mem_of_closed (fun _ member lacks => explored.onward spent member lacks) explored.begun

/-- A search behind a scope finds the members of the ends of all paths from it, and nothing
else. -/
theorem Explored.mem_found_iff (nothing : before.found.ids = []) (id : SymbolId) :
    id ∈ after.found.ids ↔
      ∃ target, LeadsTo table links name context scope target ∧
        id ∈ table.members name context target := by
  rw [explored.found, nothing]
  constructor
  · rintro (none | ⟨target, member, fresh, has⟩)
    · cases none
    · exact ⟨target, (explored.leadsTo member).resolve_left fresh, has⟩
  · rintro ⟨target, path, has⟩
    refine .inr ⟨target, explored.visited_of_leadsTo spent path, fun old => ?_, has⟩
    rw [spent.lacks target old] at has
    cases has

/-- Nothing is found behind a scope exactly if no path from it ends at a member. -/
theorem Explored.isEmpty_iff (nothing : before.found.isEmpty = true) :
    after.found.isEmpty = true ↔ ∀ target, LeadsTo table links name context scope target →
      table.members name context target = [] := by
  rcases (SymbolSet.isEmpty_iff _).mp nothing with ⟨none, definite⟩
  rw [SymbolSet.isEmpty_iff, List.eq_nil_iff_forall_not_mem]
  constructor
  · intro silent target path
    refine List.eq_nil_iff_forall_not_mem.mpr fun id has => silent.1 id ?_
    exact (explored.mem_found_iff spent none id).mpr ⟨target, path, has⟩
  · intro silent
    refine ⟨fun id found => ?_, explored.dependent.trans definite⟩
    rcases (explored.mem_found_iff spent none id).mp found with ⟨target, path, has⟩
    rw [silent target path] at has
    cases has

end Behind

end Table
end CppNames
