import CppNames.Proofs.Binding.LastTree
import CppNames.Proofs.Binding.Stable
import CppNames.Proofs.Lookup.Composition
import CppNames.Proofs.Lookup.Qualified

namespace CppNames

/-!
# Namespaces that are opened again

A namespace may be opened as often as one likes, and each block adds to it.  That all blocks of one
name in one scope make up one namespace has three parts.  The table keeps at most one namespace
under a name of a scope, whatever happens to it: a further declaration merges with the first, and a
using-declaration for another namespace is refused.  Where the name belongs to namespaces only,
each block has the scope of a symbol of that name, so all have the same.  And what a block declares
lands in its scope, from where lookup behind the name of the namespace takes it.
-/

namespace Binding

open Table

variable {table : Table} {id : SymbolId}

/-- Of two symbols that do not exclude one another, one is no namespace. -/
theorem of_exclude {left right : SymbolId} (apart : exclude table left right = .ok false) :
    ∃ first second, table.symbol left = .ok first ∧ table.symbol right = .ok second ∧
      ¬ (first.kind = .namespaceName ∧ second.kind = .namespaceName) := by
  rcases Outcome.of_bind apart with ⟨first, read, apart⟩
  rcases Outcome.of_bind apart with ⟨second, readToo, apart⟩
  refine ⟨first, second, read, readToo, ?_⟩
  rintro ⟨isNamespace, isNamespaceToo⟩
  simp [Symbol.isFunction, Symbol.isTypeName, isNamespace, isNamespaceToo, SymbolKind.isFunction,
    SymbolKind.isTypeName] at apart
  cases apart

theorem of_obstacle? {ids : List SymbolId} (none : obstacle? table id ids = .ok none) :
    ∀ existing ∈ ids, exclude table existing id = .ok false := by
  induction ids with
  | nil => exact fun _ member => absurd member List.not_mem_nil
  | cons first rest ih =>
    unfold obstacle? at none
    split at none
    · cases none
    rcases Outcome.of_bind none with ⟨excludes, asked, none⟩
    cases excludes with
    | true => cases none
    | false => exact List.forall_mem_cons.mpr ⟨asked, ih none⟩

end Binding

namespace Table

open Binding

variable {table after : Table}

/-! ## One namespace for one name -/

/-- Of any two symbols that share a name in a scope, one is no namespace. -/
def OneNamespace (table : Table) : Prop :=
  ∀ scope found, table.scope scope = .ok found → ∀ name, ∀ first ∈ found.named name,
    ∀ second ∈ found.named name, first ≠ second →
    ∃ left right, table.symbol first = .ok left ∧ table.symbol second = .ok right ∧
      ¬ (left.kind = .namespaceName ∧ right.kind = .namespaceName)

namespace OneNamespace

/-- A symbol that does not become a namespace. -/
def Stays (old later : Symbol) : Prop := later.kind = .namespaceName → old.kind = .namespaceName

theorem stays_refl (symbol : Symbol) : Stays symbol symbol := id

/-- Where no name comes in and no symbol becomes a namespace, each name keeps its one. -/
theorem frame (keeps : KeepsNames Stays table after) (one : table.OneNamespace) :
    after.OneNamespace := by
  intro id scope read name first firstIn second secondIn differ
  rcases keeps.named read firstIn with ⟨old, before, same⟩
  rcases one id old before name first (same ▸ firstIn) second (same ▸ secondIn) differ with
    ⟨left, right, readLeft, readRight, notBoth⟩
  rcases keeps.symbols first left readLeft with ⟨laterLeft, foundLeft, keptLeft⟩
  rcases keeps.symbols second right readRight with ⟨laterRight, foundRight, keptRight⟩
  exact ⟨laterLeft, laterRight, foundLeft, foundRight, notBoth ∘ And.imp keptLeft keptRight⟩

/-- A symbol comes under a name where it and what is there are not both namespaces. -/
theorem enter (one : table.OneNamespace) {target : ScopeId} {found : Scope} {name : Encoding}
    {id : SymbolId} (here : table.scope target = .ok found)
    (apart : ∀ existing ∈ found.named name, ∃ left right, table.symbol existing = .ok left ∧
      table.symbol id = .ok right ∧
      ¬ (left.kind = .namespaceName ∧ right.kind = .namespaceName)) :
    (table.modifyScope target (·.bind name id)).OneNamespace := by
  intro other scope read key first firstIn second secondIn differ
  rcases of_mem_named_bind read firstIn with ⟨old, before, known | ⟨rfl, rfl, rfl⟩⟩
  · rcases of_mem_named_bind read secondIn with ⟨_, again, knownToo | ⟨rfl, rfl, rfl⟩⟩
    · cases before.symm.trans again
      exact one other old before key first known second knownToo differ
    · cases here.symm.trans before
      exact apart first known
  · rcases of_mem_named_bind read secondIn with ⟨_, again, known | ⟨_, _, same⟩⟩
    · cases here.symm.trans again
      rcases apart second known with ⟨left, right, readLeft, readRight, notBoth⟩
      exact ⟨right, left, readRight, readLeft, notBoth ∘ And.symm⟩
    · exact absurd same.symm differ

/-- A namespace is declared where its name is new or belongs to a namespace. -/
theorem declare (one : table.OneNamespace) {scope : ScopeId} {symbol : Symbol}
    {answer : Except Refusal SymbolId} (done : table.declare scope symbol = .ok (after, answer)) :
    after.OneNamespace := by
  cases declares_of_declare done with
  | fresh found read judged =>
    refine (frame (.withSymbol stays_refl symbol) one).enter read fun existing member => ?_
    rcases of_judge_fresh judged existing member with ⟨old, readOld, coexists⟩
    refine ⟨old, symbol, ?_, (symbol_withSymbol ..).trans (if_pos rfl), ?_⟩
    · rw [symbol_withSymbol, if_neg (ne_nextSymbol (hasSymbol_of_symbol readOld)), readOld]
    · rintro ⟨isNamespace, _⟩
      have shares := (standsBeside_of_relation coexists).notBoth.2.2.2.1
      rw [isNamespace] at shares
      cases shares
  | again found id read judged =>
    refine frame (.modifySymbol id stays_refl fun old isNamespace => ?_) one
    have family := (resembles_merged old symbol).1
    rw [isNamespace] at family
    revert family
    cases old.kind <;> simp [SymbolKind.family]
  | refused found refusal read shared => exact one

theorem makeVisible (one : table.OneNamespace) {scope : ScopeId} {name : Encoding} {id : SymbolId}
    {fresh : Bool} (free : Unobstructed table scope name id)
    (done : table.makeVisible scope name id = .ok (after, fresh)) : after.OneNamespace := by
  rcases of_makeVisible done with ⟨_, _, rfl⟩
  rcases free with ⟨found, read, none⟩
  exact one.enter read fun existing member => of_exclude (of_obstacle? none existing member)

theorem stable : Stable (fun _ => True) OneNamespace :=
  .ofNames stays_refl (fun _ _ => id) frame (fun one done => one.declare done)
    fun one _ free done => one.makeVisible free done

/-- Before anything is bound, there are no names. -/
theorem fresh (searchesBases : Bool) : (Bound.fresh searchesBases).table.OneNamespace := by
  intro id scope read name first member
  rcases of_scope_initial searchesBases read with ⟨rfl, rfl⟩
  exact absurd member List.not_mem_nil

end OneNamespace

end Table

namespace Binding

open Table
open Encoding (IsComponent qualified limit)

variable {table : Table} {notes : Annotations} {tree : Node} {outer inner : ScopeId}
  {name : Encoding} {id : SymbolId}

/-! ## Blocks of one namespace -/

/-- What is left of a tree is left of every node in it. -/
theorem traced_of_placed (traced : ∀ item ∈ tree.present, Traced table notes item global)
    {node : Node} {scope : ScopeId} (placed : Placed notes tree node scope) :
    Traced table notes node scope := by
  induction placed with
  | top member => exact traced _ member
  | inside _ member ih =>
    cases ih with
    | intro _ inner => exact inner _ member

theorem remains_of_placed (traced : ∀ item ∈ tree.present, Traced table notes item global)
    {node : Node} {scope : ScopeId} (placed : Placed notes tree node scope) :
    Remains table notes node scope := by
  cases traced_of_placed traced placed with
  | intro remains _ => exact remains

/-- The nodes of a namespace are bound in its scope. -/
theorem placed_of_block {block : Node} (placed : Placed notes tree block outer)
    (is : block.isA .namespaceSpec = true) (noted : notes.scope? block = some inner) :
    ∀ child ∈ block.third.present, Placed notes tree child inner := by
  intro child member
  have visited : (child, inner) ∈ visits notes block outer := by
    unfold visits within
    rw [spells_of_isA is, noted]
    exact List.mem_map_of_mem member
  exact Placed.inside placed visited

/-- All blocks of a name in a scope open one namespace.  It is the only symbol of that name, and
its scope is that of every block.  What a node in one of the blocks declares is bound there.  And a
qualified name, wherever it stands, leads through the namespace to this scope, be it the first of
its components or a later one, and finds there what is bound under the last one, whichever block has
declared it. -/
structure Reopened (table : Table) (notes : Annotations) (tree : Node) (outer : ScopeId)
    (name : Encoding) (id : SymbolId) (inner : ScopeId) : Prop where
  only : ∃ found, table.scope outer = .ok found ∧ found.named name = [id]
  opens : Opens table id inner
  blocks : ∀ block, Placed notes tree block outer → block.isA .namespaceSpec = true →
    namespaceName block = name →
    notes.scope? block = some inner ∧ ∀ child ∈ block.third.present, Placed notes tree child inner
  declares : ∀ node, Placed notes tree node inner → ∀ declared ∈ declaredNames node,
    declared.2.isQualified = false → DeclaredIn table inner declared.1 declared.2
  means : ∀ component text, component.shown = .ok text →
    table.scopeOf ⟨[id], false⟩ component = .ok (.ok (some inner))
  leads : ∀ place front component text, front ≠ [] →
    table.denoted place front = .ok (.ok (some outer)) → component.lookupKey = .ok name →
    component.shown = .ok text →
    table.denoted place (front ++ [component]) = .ok (.ok (some inner))
  finds : ∀ body, table.scope inner = .ok body → ∀ key context, ∀ member ∈ body.named key,
    table.unhidden context (body.named key) member = true →
    ∃ found : SymbolSet, member ∈ found.ids ∧
      table.lookupQualified inner key context = .ok found ∧
      ∀ place front last, front ≠ [] → (front ++ [last]).length ≤ limit →
        (∀ part ∈ front ++ [last], IsComponent part) →
        table.denoted place front = .ok (.ok (some inner)) → last.lookupKey = .ok key →
        table.lookup (qualified (front ++ [last])) place context = .ok (.ok found)

/-- A namespace that is alone with its name is what the name stands for. -/
theorem members_of_only (sound : table.Sound) {found : Scope} (read : table.scope outer = .ok found)
    (only : found.named name = [id]) (opens : Opens table id inner) :
    table.members name { scope := true } outer = [id] := by
  rcases opens with ⟨symbol, there, isNamespace, _⟩
  rw [sound.members_eq_filter read, only]
  simp [unhidden, passes, there, isNamespace, SymbolKind.isValue]

theorem aliased_of_opens (opens : Opens table id inner) : table.aliased id = .ok id := by
  rcases opens with ⟨symbol, there, isNamespace, _⟩
  unfold aliased
  cases table.symbols.size with
  | zero => rfl
  | succ steps =>
    unfold aliasedWithin
    rw [there, Outcome.ok_bind, isNamespace]
    rfl

/-- Where a component finds the namespace alone, it leads to the scope of the namespace. -/
theorem scopeOf_of_opens (opens : Opens table id inner) {component : Encoding} {text : String}
    (shown : component.shown = .ok text) :
    table.scopeOf ⟨[id], false⟩ component = .ok (.ok (some inner)) := by
  have itself := aliased_of_opens opens
  rcases opens with ⟨symbol, there, isNamespace, defines⟩
  unfold scopeOf scopeOfSymbol
  simp only [shown, itself, there, isNamespace, defines, Outcome.ok_bind]
  rfl

theorem denoted_of_only (sound : table.Sound) {found : Scope} (read : table.scope outer = .ok found)
    (only : found.named name = [id]) (opens : Opens table id inner) {place : ScopeId}
    {front : List Encoding} {component : Encoding} {text : String} (named : front ≠ [])
    (denotes : table.denoted place front = .ok (.ok (some outer)))
    (key : component.lookupKey = .ok name) (shown : component.shown = .ok text) :
    table.denoted place (front ++ [component]) = .ok (.ok (some inner)) := by
  have alone := members_of_only sound read only opens
  have own := sound.lookupQualified_own (hasScope_of_scope read) (alone ▸ List.cons_ne_nil id [])
  rw [denoted_append named, denotes, Outcome.ok_bind]
  change table.descend outer [component] = _
  rw [descend_cons, key, Outcome.ok_bind, own, Outcome.ok_bind, alone, scopeOf_of_opens opens shown]
  rfl

/-- What is bound in a scope and not hidden is found by every qualified name that leads there. -/
theorem finds_of_member (sound : table.Sound) {body : Scope} (read : table.scope inner = .ok body)
    {key : Encoding} {context : LookupContext} {member : SymbolId} (among : member ∈ body.named key)
    (seen : table.unhidden context (body.named key) member = true) :
    ∃ found : SymbolSet, member ∈ found.ids ∧
      table.lookupQualified inner key context = .ok found ∧
      ∀ place front last, front ≠ [] → (front ++ [last]).length ≤ limit →
        (∀ part ∈ front ++ [last], IsComponent part) →
        table.denoted place front = .ok (.ok (some inner)) → last.lookupKey = .ok key →
        table.lookup (qualified (front ++ [last])) place context = .ok (.ok found) := by
  have has : member ∈ table.members key context inner := by
    rw [sound.members_eq_filter read]
    exact List.mem_filter.mpr ⟨among, seen⟩
  have own := sound.lookupQualified_own (hasScope_of_scope read) (List.ne_nil_of_mem has)
  refine ⟨_, has, own, fun place front last named told components denotes keyOf => ?_⟩
  have behind : table.lookupBehind last context (.ok (some inner)) =
      last.lookupKey >>= fun key => table.lookupQualified inner key context >>=
        fun found => .ok (.ok found) := rfl
  rw [lookup_qualified named told components, denotes, Outcome.ok_bind, behind, keyOf,
    Outcome.ok_bind, own, Outcome.ok_bind]

/-- What is alone with its name in a namespace of the global scope is found behind `::` and the name
of the namespace, wherever that stands. -/
theorem Reopened.finds_alone (reopened : Reopened table notes tree global name id inner)
    {body : Scope} (read : table.scope inner = .ok body) {key : Encoding} {member : SymbolId}
    (alone : body.named key = [member]) {component last : Encoding} {text : String}
    (single : IsComponent component) (called : component.lookupKey = .ok name)
    (shown : component.shown = .ok text) (singleLast : IsComponent last)
    (keyOf : last.lookupKey = .ok key) (place : ScopeId) :
    ∃ found : SymbolSet, member ∈ found.ids ∧
      table.lookup (qualified [.globalScope, component, last]) place {} = .ok (.ok found) := by
  have outermost : table.denoted place [.globalScope] = .ok (.ok (some global)) := by
    rw [denoted_cons, if_pos (by decide)]
    rfl
  have leads := reopened.leads place [.globalScope] component text (List.cons_ne_nil _ _) outermost
    called shown
  have seen : table.unhidden {} (body.named key) member = true := by
    rw [alone]
    exact unhidden_alone table member
  have among : member ∈ body.named key := alone ▸ List.mem_singleton_self member
  rcases reopened.finds body read key {} member among seen with ⟨found, has, _, lookups⟩
  have told : [.globalScope, component, last].length ≤ limit := (by decide : 3 ≤ limit)
  refine ⟨found, has, lookups place [.globalScope, component] last (List.cons_ne_nil _ _) told
    ?_ leads keyOf⟩
  simp only [List.cons_append, List.nil_append, List.forall_mem_cons]
  exact ⟨.globalScope, single, singleLast, by simp⟩

/-- Where a name belongs to namespaces only, one of two different symbols is none. -/
theorem only_of_namespaces (one : table.OneNamespace) (sound : table.Sound) {found : Scope}
    (read : table.scope outer = .ok found)
    (namespaces : ∀ id, Shows table outer name id → IsNamespace table id)
    (shows : Shows table outer name id) : found.named name = [id] := by
  rcases shows with ⟨_, again, member⟩
  cases read.symm.trans again
  have same : ∀ other ∈ found.named name, other = id := by
    intro other among
    by_contra differ
    rcases one outer found read name other among id member differ with
      ⟨left, right, readLeft, readRight, notBoth⟩
    rcases namespaces other ⟨found, read, among⟩ with ⟨_, againLeft, isNamespace⟩
    rcases namespaces id ⟨found, read, member⟩ with ⟨_, againRight, isNamespaceToo⟩
    cases readLeft.symm.trans againLeft
    cases readRight.symm.trans againRight
    exact notBoth ⟨isNamespace, isNamespaceToo⟩
  have agree : ∀ other, other ∈ found.named name ↔ other ∈ [id] := fun other => by
    rw [List.mem_singleton]
    exact ⟨same other, fun isThis => isThis ▸ member⟩
  have distinct := (sound.named read name).2
  exact List.perm_singleton.mp
    ((List.perm_ext_iff_of_nodup distinct (List.nodup_singleton id)).mpr agree)

/-- Where a name belongs to namespaces only, all blocks of the name open one. -/
theorem reopened_of_traced (one : table.OneNamespace) (sound : table.Sound)
    (traced : ∀ item ∈ tree.present, Traced table notes item global)
    (namespaces : ∀ id, Shows table outer name id → IsNamespace table id) {block : Node}
    (placed : Placed notes tree block outer) (is : block.isA .namespaceSpec = true)
    (named : namespaceName block = name) :
    ∃ id inner, Reopened table notes tree outer name id inner := by
  have opened : ∀ block, Placed notes tree block outer → block.isA .namespaceSpec = true →
      namespaceName block = name → ∃ id inner, notes.scope? block = some inner ∧
        Shows table outer name id ∧ Opens table id inner := by
    rintro block placed is rfl
    rcases (remains_of_placed traced placed).block is with ⟨inner, noted, opens⟩
    rcases opens namespaces with ⟨id, shows, opens⟩
    exact ⟨id, inner, noted, shows, opens⟩
  rcases opened block placed is named with ⟨id, inner, _, ⟨found, read, member⟩, opens⟩
  have only := only_of_namespaces one sound read namespaces ⟨found, read, member⟩
  have same : ∀ block, Placed notes tree block outer → block.isA .namespaceSpec = true →
      namespaceName block = name → notes.scope? block = some inner := by
    intro other placed is named
    rcases opened other placed is named with ⟨otherId, _, noted, ⟨_, again, among⟩, otherOpens⟩
    cases read.symm.trans again
    rw [only] at among
    obtain rfl := List.mem_singleton.mp among
    rcases opens with ⟨symbol, there, _, defines⟩
    rcases otherOpens with ⟨_, thereToo, _, definesToo⟩
    cases there.symm.trans thereToo
    cases defines.symm.trans definesToo
    exact noted
  refine ⟨id, inner, ⟨⟨found, read, only⟩, opens, ?_, ?_, ?_, ?_, ?_⟩⟩
  · intro other placed is named
    have noted := same other placed is named
    exact ⟨noted, placed_of_block placed is noted⟩
  · exact fun node placed => (remains_of_placed traced placed).names
  · exact fun _ _ shown => scopeOf_of_opens opens shown
  · exact fun _ _ _ _ named denotes key shown =>
      denoted_of_only sound read only opens named denotes key shown
  · exact fun body readBody _ _ _ among seen => finds_of_member sound readBody among seen

end Binding

open Binding Table

/-- Namespaces that are opened again are one namespace.  When a parse tree is bound for the first
time and the pass comes to its end, then all blocks of a name that belongs to namespaces only in
some scope open one namespace, in whatever order they stand and whatever lies between them. -/
theorem reopened_of_bind (file source : String) (parsing : ParseOptions) (searchesBases : Bool)
    (name : String) (options : BindOptions) :
    match parse file source parsing with
    | .error _ => True
    | .ok parsed =>
      ∀ (bound : Bound) (log : Log),
        bind name options parsed.tree (.fresh searchesBases) = (bound, .ok log) →
        ∀ scope key, (∀ id, Shows bound.table scope key id → IsNamespace bound.table id) →
        ∀ block, Placed bound.annotations parsed.tree block scope →
          block.isA .namespaceSpec = true → namespaceName block = key →
          ∃ id inner, Reopened bound.table bound.annotations parsed.tree scope key id inner := by
  split
  · trivial
  next parsed parses =>
  intro bound log binds scope key namespaces block placed is named
  have distinct := nodup_ids_of_parse parses
  have formed := formed_bind (formed_fresh (Setting.ofFirstPass parsed.tree) rfl rfl searchesBases)
    (suits_ofFirstPass distinct (Tree.coherent_of_nodup distinct) searchesBases) name options
  have one : (bind name options parsed.tree (.fresh searchesBases)).1.table.OneNamespace :=
    OneNamespace.stable.bind (fun _ _ => trivial) name options (.fresh searchesBases)
  rw [binds] at formed one
  have traced : ∀ item ∈ parsed.tree.present,
      Traced bound.table bound.annotations item global := by
    unfold bind at binds
    dsimp only at binds
    split at binds
    · next runs =>
      cases binds
      exact (lasts_firstPass distinct searchesBases name options).lasts rfl rfl runs (.refl _ _)
    · cases binds
  exact reopened_of_traced one formed.consistent.sound traced namespaces placed is named

/-- Two blocks with a variable each, and both are found in the namespace. -/
theorem reopened_of_bind_twice :
    ∃ parsed bound log, parse "" "namespace A{int x;}namespace A{int y;}" {} = .ok parsed ∧
      bind "" {} parsed.tree (.fresh true) = (bound, .ok log) ∧
      ∃ id inner, Reopened bound.table bound.annotations parsed.tree global (.simpleName "A") id
          inner ∧
        bound.annotations.scope? (parsed.tree.nth 0) = some inner ∧
        bound.annotations.scope? (parsed.tree.nth 1) = some inner ∧
        ∀ place, ∀ text ∈ ["x", "y"], ∃ found : SymbolSet, found.ids ≠ [] ∧
          bound.table.lookup (.qualified [.globalScope, .simpleName "A", .simpleName text]) place
            {} = .ok (.ok found) := by
  have read : (parse "" "namespace A{int x;}namespace A{int y;}" {}).toOption.any fun parsed =>
      let bound := bind "" {} parsed.tree (.fresh true)
      let blocks := [parsed.tree.nth 0, parsed.tree.nth 1]
      let named scope text := (bound.1.table.scope scope).toOption.map (·.named (.simpleName text))
      bound.2.toOption.isSome &&
        blocks.map Tree.construct? == [some .namespaceSpec, some .namespaceSpec] &&
        blocks.map namespaceName == [.simpleName "A", .simpleName "A"] &&
        blocks.map bound.1.annotations.scope? == [some ⟨1⟩, some ⟨1⟩] &&
        [named global "A", named ⟨1⟩ "x", named ⟨1⟩ "y"] == [some [⟨0⟩], some [⟨1⟩], some [⟨2⟩]] &&
        (bound.1.table.symbol ⟨0⟩).toOption.map (·.kind) == some .namespaceName := by
    decide +kernel
  have theorems := reopened_of_bind "" "namespace A{int x;}namespace A{int y;}" {} true "" {}
  cases parses : parse "" "namespace A{int x;}namespace A{int y;}" {} with
  | error stop => rw [parses] at read; cases read
  | ok parsed =>
    rw [parses] at read theorems
    rcases binds : bind "" {} parsed.tree (.fresh true) with ⟨bound, answered⟩
    simp only [Except.toOption, Option.any_some, binds, List.map_cons, List.map_nil,
      Bool.and_eq_true, beq_iff_eq, List.cons.injEq, and_true] at read
    rcases read with
      ⟨⟨⟨⟨⟨ended, spelled, again⟩, called, calledAgain⟩, noted, notedAgain⟩, named, ofX, ofY⟩, kind⟩
    cases answered with
    | error stop => cases ended
    | ok log =>
      have namespaces : ∀ id, Shows bound.table global (.simpleName "A") id →
          IsNamespace bound.table id := by
        rintro id ⟨found, here, member⟩
        rw [here] at named
        have alone : found.named (.simpleName "A") = [⟨0⟩] := Option.some.inj named
        rw [alone] at member
        obtain rfl := List.mem_singleton.mp member
        cases there : bound.table.symbol ⟨0⟩ with
        | error fault => rw [there] at kind; cases kind
        | ok symbol =>
          rw [there] at kind
          exact ⟨symbol, there, Option.some.inj kind⟩
      have placed : Placed bound.annotations parsed.tree (parsed.tree.nth 0) global :=
        .top (Tree.nth_mem_present spelled)
      rcases theorems bound log binds global (.simpleName "A") namespaces _ placed
        (beq_of_eq spelled) called with ⟨id, inner, reopened⟩
      have first := (reopened.blocks _ placed (beq_of_eq spelled) called).1
      have second := (reopened.blocks _ (.top (Tree.nth_mem_present again)) (beq_of_eq again)
        calledAgain).1
      obtain rfl : inner = ⟨1⟩ := Option.some.inj (first.symm.trans noted)
      refine ⟨parsed, bound, log, rfl, binds, id, ⟨1⟩, reopened, first, second, fun place => ?_⟩
      cases inside : bound.table.scope ⟨1⟩ with
      | error fault => rw [inside] at ofX; cases ofX
      | ok body =>
        rw [inside] at ofX ofY
        have finds : ∀ {text member}, body.named (.simpleName text) = [member] →
            (Encoding.simpleName text).lookupKey = .ok (.simpleName text) →
            ∃ found : SymbolSet, found.ids ≠ [] ∧ bound.table.lookup
              (.qualified [.globalScope, .simpleName "A", .simpleName text]) place {} =
                .ok (.ok found) := by
          intro text member alone keyOf
          have shown : (Encoding.simpleName "A").shown = .ok "A" := by decide +kernel
          rcases reopened.finds_alone inside alone (.simpleName "A") (by decide +kernel) shown
            (.simpleName text) keyOf place with ⟨found, has, lookup⟩
          exact ⟨found, List.ne_nil_of_mem has, lookup⟩
        simp only [List.forall_mem_cons]
        exact ⟨finds (Option.some.inj ofX) (by decide +kernel),
          finds (Option.some.inj ofY) (by decide +kernel), by simp⟩

end CppNames
