import CppNames.Binding.Bind
import CppNames.Proofs.Binding.KeepDeclaration
import CppNames.Proofs.Binding.Use

namespace CppNames
namespace Binding

/-!
# Facts that last

What a step finds out about a node is to hold of the table at the end, behind everything that is
bound later.  Some facts last because tables only grow.  Others say what a node has noted and
declared, and these last because no other part of the tree makes use of its number.

`Lasts` says of a step of the first pass that it keeps the table in form, and what holds of every
state that comes behind it and `Spares` the nodes at hand.  Its rules follow the steps of binding.
In the rule for a sequence, what lasts of the first step is given when the second one is looked at,
so that facts gather until the last step has them all.
-/

/-!
## What binding visits

Binding goes through a tree from the outside to the inside and always knows the scope that
declarations go into.  `visits` tells for a node which nodes inside it are bound next, and in which
scopes.  It looks at the tree and at the scopes that are noted on it only, so that it can be asked
when binding is over.

The other definitions say what is left of the binding of one node in the table at the end: its
names are bound in its scope, and a namespace has the scope of its symbol.
-/

open Table

/-! ## Visits -/

/-- Some nodes in the scope that is noted on a node. -/
def within (notes : Annotations) (node : Node) (items : List Node) : List (Node × ScopeId) :=
  (notes.scope? node).elim [] fun scope => items.map (·, scope)

/-- What is bound of the parameters of a declarator. -/
def parameterParts (declarator : Node) : List Node :=
  (declarator.parameterList.present.filter (·.isA .parameterDeclaration)).flatMap (·.third.present)

/-- What a declarator visits that defines no function. -/
def declaratorVisits (notes : Annotations) (storage : Storage) (scope : ScopeId)
    (declarator : Node) : List (Node × ScopeId) :=
  if declarator.name?.isSome && (declarator.type?.getD .empty).isFunction then
    if storage.isFriend then [] else within notes declarator (parameterParts declarator)
  else declarator.present.map (·, scope)

/-- What the definition of a function visits behind the words of its type. -/
def definitionVisits (notes : Annotations) (node : Node) : List (Node × ScopeId) :=
  within notes node.third (parameterParts node.third) ++
    within notes node ([memberInitializers node].filter (!·.isNil) ++ node.last.present)

/-- The declarators of a declaration that defines no function, or of a type definition. -/
def declarators (node : Node) : List Node := node.third.present.filter (·.isA .declarator)

/-- The nodes that are bound next inside a node that is bound in a scope, and their scopes. -/
def visits (notes : Annotations) (node : Node) (scope : ScopeId) : List (Node × ScopeId) :=
  match node.construct? with
  | none => []
  | some construct =>
    match construct with
    | .namespaceSpec => within notes node node.third.present
    | .classSpec => within notes node (node.nth 3).present
    | .enumSpec | .usingDirective | .usingDeclaration => []
    | .declaration =>
      (typeSpecifiers node.second).map (·, scope) ++
        if node.third.isA .declarator then definitionVisits notes node
        else (declarators node).flatMap
          (declaratorVisits notes (Storage.ofSpecifiers node.first) scope)
    | .typedefDecl => (typeSpecifiers node.second).map (·, scope)
    | .templateDecl => [(node.nth 4, scope)]
    | .block | .forStatement => within notes node node.present
    | .dotMemberExpr | .arrowMemberExpr => ([node.first].filter (!·.isNil)).map (·, scope)
    | _ => node.present.map (·, scope)

/-- A node that is bound in a scope when a tree is bound. -/
inductive Placed (notes : Annotations) (tree : Node) : Node → ScopeId → Prop
  | top {node : Node} (member : node ∈ tree.present) : Placed notes tree node global
  | inside {node : Node} {scope : ScopeId} (outer : Placed notes tree node scope)
      {child : Node × ScopeId} (member : child ∈ visits notes node scope) :
      Placed notes tree child.1 child.2

/-! ## What is left behind -/

/-- The name of a namespace.  All namespaces without a name share one. -/
def namespaceName (node : Node) : Encoding := node.name?.getD anonymousNamespace

/-- The numbers of nodes with the names that they declare. -/
def namesOf (nodes : List Node) : List (Tree.NodeId × Encoding) :=
  nodes.filterMap fun node => node.name?.map (node.id, ·)

/-- The names that a node declares in its scope, each with the number of the node that declares
it.  Those with a qualifier go elsewhere. -/
def declaredNames (node : Node) : List (Tree.NodeId × Encoding) :=
  match node.construct? with
  | some .namespaceSpec => [(node.id, namespaceName node)]
  | some .classSpec => namesOf [node]
  | some .enumSpec =>
    (if node.second.isNil then [] else namesOf [node]) ++
      (node.third.second.present.filterMap enumeratorParts?).map fun parts =>
        (parts.1.id, .simpleName parts.1.text)
  | some .declaration =>
    namesOf (if node.third.isA .declarator then [node.third] else declarators node)
  | some .typedefDecl => namesOf (declarators node)
  | _ => []

/-- Whatever a node declares is bound in a scope under a name. -/
def DeclaredIn (table : Table) (scope : ScopeId) (label : Tree.NodeId) (name : Encoding) : Prop :=
  ∀ id, label ∈ declarers table id → Shows table scope name id

/-- A symbol is a namespace. -/
def IsNamespace (table : Table) (id : SymbolId) : Prop :=
  ∃ symbol, table.symbol id = .ok symbol ∧ symbol.kind = .namespaceName

/-- A namespace has a scope, and where its name belongs to namespaces only, it is that of a
namespace of this name. -/
def BlockIn (table : Table) (notes : Annotations) (node : Node) (scope : ScopeId) : Prop :=
  ∃ inner, notes.scope? node = some inner ∧
    ((∀ id, Shows table scope (namespaceName node) id → IsNamespace table id) →
      ∃ id, Shows table scope (namespaceName node) id ∧ Opens table id inner)

/-- What the binding of a node leaves behind. -/
structure Remains (table : Table) (notes : Annotations) (node : Node) (scope : ScopeId) : Prop where
  names : ∀ declared ∈ declaredNames node, declared.2.isQualified = false →
    DeclaredIn table scope declared.1 declared.2
  block : node.isA .namespaceSpec = true → BlockIn table notes node scope

/-- What the binding of a node and of all nodes inside it leaves behind. -/
inductive Traced (table : Table) (notes : Annotations) : Node → ScopeId → Prop
  | intro {node : Node} {scope : ScopeId} (remains : Remains table notes node scope)
      (inner : ∀ child ∈ visits notes node scope, Traced table notes child.1 child.2) :
      Traced table notes node scope

variable {small setting : Setting} {surroundings : Surroundings} {table before after : Table}
  {pending : Option ScopeId} {uses front back : Set Use}

/-! ## Settings for some uses -/

/-- The setting in which only some uses are allowed. -/
def Setting.using (setting : Setting) (uses : Set Use) : Setting :=
  { setting with
    noted := {label | .note label ∈ uses}
    declaring := {label | .declare label ∈ uses} }

theorem narrows_using (narrows : Narrows small setting) (fits : front ⊆ uses) :
    Narrows (small.using front) (setting.using uses) where
  content := narrows.content
  first := narrows.first
  held := narrows.held
  noted _ member := fits member
  declaring _ member := fits member
  aliasing := narrows.aliasing
  inner := narrows.inner
  inside := narrows.inside
  settled := narrows.settled

theorem Narrows.refl (setting : Setting) : Narrows setting setting where
  content := rfl
  first := rfl
  held _ member := member
  noted _ member := member
  declaring _ member := member
  aliasing := id
  inner := rfl
  inside := id
  settled _ member := member

/-- What is allowed matters to steps and not to tables. -/
theorem Ready.using (ready : Ready setting surroundings table pending) (uses : Set Use) :
    Ready (setting.using uses) surroundings table pending where
  formed := ⟨ready.formed.consistent, ready.formed.root, ready.formed.notes, ready.formed.older,
    ready.formed.headers, ready.formed.headed, ready.formed.budding, ready.formed.housed⟩
  current := ready.current
  outermost := ready.outermost

theorem Ready.ofUsing (ready : Ready (setting.using uses) surroundings table pending) :
    Ready setting surroundings table pending where
  formed := ⟨ready.formed.consistent, ready.formed.root, ready.formed.notes, ready.formed.older,
    ready.formed.headers, ready.formed.headed, ready.formed.budding, ready.formed.housed⟩
  current := ready.current
  outermost := ready.outermost

/-! ## Nodes that are bound once -/

/-- The nodes at hand have no scopes and have declared nothing yet. -/
structure Unbound (uses : Set Use) (table : Table) : Prop where
  noted : ∀ label, .note label ∈ uses → table.scopeOfNode? label = none
  declared : ∀ label, .declare label ∈ uses → ∀ id, label ∉ declarers table id

theorem Unbound.mono (unbound : Unbound uses table) (fits : front ⊆ uses) : Unbound front table where
  noted label member := unbound.noted label (fits member)
  declared label member := unbound.declared label (fits member)

theorem Unbound.behind (unbound : Unbound back before) (apart : Disjoint front back)
    (evolves : Evolves (setting.using front) before after) : Unbound back after where
  noted label member := by
    rw [evolves.notes label fun other => Set.disjoint_left.mp apart other member]
    exact unbound.noted label member
  declared label member id declared := by
    rcases evolves.declared id with ⟨added, same, allowed⟩
    rw [same] at declared
    rcases List.mem_append.mp declared with old | new
    · exact unbound.declared label member id old
    · exact Set.disjoint_left.mp apart (allowed label new) member

/-- Nodes that suit a setting, are all different, and are not bound yet. -/
structure Once (setting : Setting) (table : Table) (parts : List Node) : Prop where
  spells : ∀ part ∈ parts, ∀ construct, part.construct? = some construct →
    setting.content part.id = construct
  aliasing : ∀ part ∈ parts, part.isA .usingDeclaration = true → setting.aliasing
  inside : setting.inside → ∀ part ∈ parts, part.id ∈ setting.inner
  inner : ∀ part ∈ parts, ∀ below ∈ part.innerParts, below.id ∈ setting.inner
  distinct : (parts.map Tree.id).Nodup
  unbound : Unbound (usesOf parts) table

namespace Once

variable {parts some : List Node}

theorem subperm (once : Once setting table parts) (within : some.Subperm parts) :
    Once setting table some where
  spells part member := once.spells part (within.subset member)
  aliasing part member := once.aliasing part (within.subset member)
  inside stands part member := once.inside stands part (within.subset member)
  inner part member := once.inner part (within.subset member)
  distinct := distinct_of_subperm within once.distinct
  unbound := once.unbound.mono (usesOf_mono within.subset)

theorem sublist (once : Once setting table parts) (sublist : some.Sublist parts) :
    Once setting table some :=
  once.subperm sublist.subperm

theorem nth {node : Node} (once : Once setting table node.preorder) (position : Nat) :
    Once setting table (node.nth position).preorder :=
  once.sublist ((Tree.preorder_nth_sublist node position).trans (Tree.parts_elements_sublist node))

theorem present {node : Node} (once : Once setting table node.preorder) :
    Once setting table (Tree.parts node.present) :=
  once.sublist (Tree.parts_present_sublist node)

/-- Nodes stay unbound while others are bound. -/
theorem behind (once : Once setting before parts) (apart : Disjoint front (usesOf parts))
    (evolves : Evolves (small.using front) before after) : Once setting after parts where
  spells := once.spells
  aliasing := once.aliasing
  inside := once.inside
  inner := once.inner
  distinct := once.distinct
  unbound := once.unbound.behind apart evolves

theorem self {node : Node} (once : Once setting table node.preorder) {construct : Construct}
    (is : node.isA construct = true) : setting.content node.id = construct :=
  once.spells node (mem_preorder_of_isA is) construct (eq_of_beq is)

theorem insideSelf {node : Node} (once : Once setting table node.preorder) {construct : Construct}
    (is : node.isA construct = true) : setting.inside → node.id ∈ setting.inner :=
  fun stands => once.inside stands node (mem_preorder_of_isA is)

/-- A node does something itself, and then its parts are bound. -/
theorem own {node : Node} {construct : Construct} {inner : List Node}
    (once : Once setting table node.preorder) (is : node.isA construct = true)
    (inside : inner.Sublist (Tree.parts node.elements)) :
    Splits (usesOf node.preorder) (usesOf [node]) (usesOf inner) := by
  refine .ofParts ?_ once.distinct
  rw [preorder_of_isA is]
  exact ((List.Sublist.refl _).append inside).subperm

theorem hold (once : Once setting table parts) (header : Option ScopeId) :
    Once (setting.hold header) table parts :=
  ⟨once.spells, once.aliasing, once.inside, once.inner, once.distinct, once.unbound⟩

theorem settle (once : Once setting table parts) (header : Option ScopeId) :
    Once (setting.settle header) table parts :=
  ⟨once.spells, once.aliasing, once.inside, once.inner, once.distinct, once.unbound⟩

/-- Some of the nodes, which stand inside a function. -/
theorem inward (once : Once setting table parts) (within : some.Subperm parts)
    (inner : ∀ part ∈ some, part.id ∈ setting.inner) : Once setting.inward table some where
  spells := (once.subperm within).spells
  aliasing := (once.subperm within).aliasing
  inside _ := inner
  inner := (once.subperm within).inner
  distinct := (once.subperm within).distinct
  unbound := (once.subperm within).unbound

end Once

/-! ## What is left alone -/

/-- What was noted and declared at the nodes at hand stays as it is, and so do the ways outwards
from the scopes that are no headers. -/
structure Spares (uses : Set Use) (after final : State) : Prop where
  grows : after.table.Grows final.table
  ways : KeepsWays ∅ after.table final.table
  noted : ∀ node : Node, .note node.id ∈ uses →
    final.annotations.scope? node = after.annotations.scope? node
  declared : ∀ label, .declare label ∈ uses → ∀ id, label ∈ declarers final.table id →
    label ∈ declarers after.table id

namespace Spares

variable {middle done final : State}

theorem mono (spares : Spares uses done final) (fits : front ⊆ uses) :
    Spares front done final where
  grows := spares.grows
  ways := spares.ways
  noted node member := spares.noted node (fits member)
  declared label member := spares.declared label (fits member)

theorem trans (first : Spares uses middle done) (second : Spares uses done final) :
    Spares uses middle final where
  grows := first.grows.trans second.grows
  ways := first.ways.trans first.grows second.ways
  noted node member := (second.noted node member).trans (first.noted node member)
  declared label member id declared :=
    first.declared label member id (second.declared label member id declared)

end Spares

/-- Notes for other nodes do not hide the note of a node. -/
theorem scope?_append {added notes : Annotations} {node : Node}
    (others : ∀ note ∈ added, note.1 ≠ node.id) :
    Annotations.scope? (added ++ notes) node = notes.scope? node := by
  unfold Annotations.scope?
  cases labelled : node.label? with
  | none => rfl
  | some label =>
    have same : node.id = label := by simp [Tree.id, labelled]
    have absent : added.find? (·.1 == label) = none :=
      List.find?_eq_none.mpr fun note member => by simpa [same] using others note member
    simp [List.find?_append, absent]

/-- A step leaves alone what it makes no use of. -/
theorem spares_of_ends {file : String} {middle done : State} (firstly : setting.first = true)
    (evolves : Evolves (setting.using back) middle.table done.table)
    (adds : Adds (setting.using back) file middle done) (apart : Disjoint front back) :
    Spares front middle done where
  grows := evolves.grows
  ways := (evolves.ways firstly).fewer (Set.empty_subset _)
  noted node member := by
    rcases adds.annotations with ⟨added, same, allowed⟩
    rw [same]
    refine scope?_append fun note among own => ?_
    exact Set.disjoint_left.mp apart member (own ▸ allowed note among)
  declared label member id declared := by
    rcases evolves.declared id with ⟨added, same, allowed⟩
    rw [same] at declared
    refine (List.mem_append.mp declared).resolve_right fun new => ?_
    exact Set.disjoint_left.mp apart member (allowed label new)

/-! ## Steps -/

/-- A step of the first pass that keeps the table in form.  `lasting` tells what holds of its answer
and of every state behind it in which the nodes at hand are left alone.  The same step, with checks
of what is found in between, does the same. -/
structure Lasts {α : Type} (setting : Setting) (uses : Set Use) (surroundings : Surroundings)
    (table : Table) (pending : Option ScopeId) (step checked : Bind α)
    (post : α → Table → Option ScopeId → Prop) (lasting : α → State → Prop) : Prop where
  keeps : Keeps (setting.using uses) surroundings table pending step post
  same : ∀ {early : State}, early.table = table → early.header = pending →
    checked surroundings early = step surroundings early
  lasts : ∀ {early done final : State} {value : α}, early.table = table → early.header = pending →
    step surroundings early = .ok value done → Spares uses done final → lasting value final

variable {α β : Type} {step checked : Bind α} {post : α → Table → Option ScopeId → Prop}
  {lasting : α → State → Prop}

namespace Lasts

theorem weaken {weaker : α → Table → Option ScopeId → Prop} {looser : α → State → Prop}
    (lasts : Lasts setting uses surroundings table pending step checked post lasting)
    (implies : ∀ value after left, post value after left → weaker value after left)
    (loosens : ∀ value final, lasting value final → looser value final) :
    Lasts setting uses surroundings table pending step checked weaker looser where
  keeps := lasts.keeps.weaken implies
  same := lasts.same
  lasts sameTable sameHeader runs spares :=
    loosens _ _ (lasts.lasts sameTable sameHeader runs spares)

theorem widen (lasts : Lasts setting front surroundings table pending step checked post lasting)
    (fits : front ⊆ uses) : Lasts setting uses surroundings table pending step checked post lasting where
  keeps := lasts.keeps.widen (narrows_using (.refl setting) fits)
  same := lasts.same
  lasts sameTable sameHeader runs spares :=
    lasts.lasts sameTable sameHeader runs (spares.mono fits)

theorem inLarger (lasts : Lasts small uses surroundings table pending step checked post lasting)
    (narrows : Narrows small setting) :
    Lasts setting uses surroundings table pending step checked post lasting where
  keeps := lasts.keeps.widen (narrows_using narrows subset_rfl)
  same := lasts.same
  lasts := lasts.lasts

/-- What lasts because tables grow. -/
theorem ofKeeps (keeps : Keeps (setting.using uses) surroundings table pending step post)
    (implies : ∀ {value done final}, post value done.table done.header → Spares uses done final →
      lasting value final) :
    Lasts setting uses surroundings table pending step step post lasting where
  keeps := keeps
  same _ _ := rfl
  lasts sameTable sameHeader runs spares :=
    implies (keeps.ends sameTable sameHeader runs).2.2.2.2 spares

/-- The table where a step begins leads to every state behind it. -/
theorem since (firstly : setting.first = true)
    (lasts : Lasts setting uses surroundings table pending step checked post fun value final =>
      table.Grows final.table → KeepsWays ∅ table final.table → lasting value final) :
    Lasts setting uses surroundings table pending step checked post lasting where
  keeps := lasts.keeps
  same := lasts.same
  lasts sameTable sameHeader runs spares := by
    have evolves := (lasts.keeps.ends sameTable sameHeader runs).2.1
    have ways := (evolves.ways firstly).fewer (Set.empty_subset _)
    exact lasts.lasts sameTable sameHeader runs spares (evolves.grows.trans spares.grows)
      (ways.trans evolves.grows spares.ways)

theorem pure {value : α} (ready : Ready setting surroundings table pending)
    (holds : post value table pending)
    (always : ∀ {done final : State}, done.table = table → Spares uses done final →
      lasting value final) :
    Lasts setting uses surroundings table pending (Pure.pure value) (Pure.pure value) post
      lasting where
  keeps := .pure (ready.using uses) holds
  same _ _ := rfl
  lasts sameTable _ runs spares := by
    cases runs
    exact always sameTable spares

/-- How a sequence ends whose first step may be allowed less, told from the table in between. -/
theorem between {next nextChecked : α → Bind β} {final : β → Table → Option ScopeId → Prop}
    (finish : α → Table → β → State → Prop) (firstly : setting.first = true)
    (narrows : Narrows small setting) (splits : Splits uses front back)
    (first : Lasts small front surroundings table pending step checked post lasting)
    (rest : ∀ value after left, Ready small surroundings after left →
      Ready setting surroundings after left → Evolves (small.using front) table after →
      (left = none ∨ left = pending) → post value after left →
      Lasts setting back surroundings after left (next value) (nextChecked value) final
        fun result state => lasting value state → finish value after result state)
    {early done last : State} {result : β} (sameTable : early.table = table)
    (sameHeader : early.header = pending)
    (runs : (step >>= next) surroundings early = .ok result done) (spares : Spares uses done last) :
    ∃ value middle, step surroundings early = .ok value middle ∧ Spares front middle last ∧
      finish value middle.table result last := by
  rcases Binds.of_bind runs with ⟨value, middle, runsFront, runsBack⟩
  rcases first.keeps.ends sameTable sameHeader runsFront with ⟨ready, evolves, header, _, holds⟩
  have large := ready.ofUsing.widen narrows
  have tail := rest value middle.table middle.header ready.ofUsing large evolves header holds
  rcases tail.keeps.ends rfl rfl runsBack with ⟨_, further, _, adds, _⟩
  have spared : Spares front middle last :=
    (spares_of_ends firstly further adds splits.apart).trans (spares.mono splits.inFront)
  exact ⟨value, middle, runsFront, spared, tail.lasts rfl rfl runsBack (spares.mono splits.inBack)
    (first.lasts sameTable sameHeader runsFront spared)⟩

/-- One step after another, with uses that are apart.  The first step may be allowed less. -/
theorem bindIn {next nextChecked : α → Bind β} {final : β → Table → Option ScopeId → Prop}
    {finish : β → State → Prop} (firstly : setting.first = true) (narrows : Narrows small setting)
    (splits : Splits uses front back)
    (first : Lasts small front surroundings table pending step checked post lasting)
    (rest : ∀ value after left, Ready small surroundings after left →
      Ready setting surroundings after left → Evolves (small.using front) table after →
      (left = none ∨ left = pending) → post value after left →
      Lasts setting back surroundings after left (next value) (nextChecked value) final
        fun result state => lasting value state → finish result state) :
    Lasts setting uses surroundings table pending (step >>= next) (checked >>= nextChecked) final
      finish where
  keeps := by
    refine .narrowly (narrows_using narrows splits.inFront) first.keeps ?_
    intro value after left still ready evolves header holds
    exact (rest value after left still.ofUsing ready.ofUsing evolves header holds).keeps.widen
      (narrows_using (.refl setting) splits.inBack)
  same := by
    intro early sameTable sameHeader
    have front := first.same sameTable sameHeader
    cases runs : step surroundings early with
    | error error middle =>
      rw [Binds.bind_of_error runs, Binds.bind_of_error (front.trans runs)]
    | ok value middle =>
      rcases first.keeps.ends sameTable sameHeader runs with ⟨ready, evolves, header, _, holds⟩
      rw [Binds.bind_of_ok runs, Binds.bind_of_ok (front.trans runs)]
      exact (rest value middle.table middle.header ready.ofUsing (ready.ofUsing.widen narrows) evolves
        header holds).same rfl rfl
  lasts := by
    intro early done last result sameTable sameHeader runs spares
    rcases between (fun _ _ => finish) firstly narrows splits first rest sameTable sameHeader runs
      spares with ⟨_, _, _, _, holds⟩
    exact holds

theorem bind {next nextChecked : α → Bind β} {final : β → Table → Option ScopeId → Prop}
    {finish : β → State → Prop} (firstly : setting.first = true) (splits : Splits uses front back)
    (first : Lasts setting front surroundings table pending step checked post lasting)
    (rest : ∀ value after left, Ready setting surroundings after left →
      Evolves (setting.using front) table after → (left = none ∨ left = pending) →
      post value after left →
      Lasts setting back surroundings after left (next value) (nextChecked value) final
        fun result state => lasting value state → finish result state) :
    Lasts setting uses surroundings table pending (step >>= next) (checked >>= nextChecked) final
      finish :=
  bindIn firstly (.refl setting) splits first fun value after left _ => rest value after left

/-- What comes behind a step that only looks. -/
theorem behind {looked : Surroundings → Table → α → Prop} {next nextChecked : α → Bind β}
    {final : β → Table → Option ScopeId → Prop} {finish : β → State → Prop}
    (firstly : setting.first = true) (ready : Ready setting surroundings table pending)
    (first : Reads step looked)
    (rest : ∀ value, looked surroundings table value →
      Lasts setting uses surroundings table pending (next value) (nextChecked value) final finish) :
    Lasts setting uses surroundings table pending (step >>= next) (step >>= nextChecked) final
      finish := by
  have looks : Lasts setting ∅ surroundings table pending step step _ fun _ _ => True :=
    .ofKeeps (.reads (ready.using ∅) first) fun _ _ => trivial
  refine .bind firstly (.none uses) looks ?_
  rintro value after left _ _ _ ⟨rfl, rfl, holds⟩
  exact (rest value holds).weaken (fun _ _ _ holds => holds) fun _ _ holds _ => holds

/-- A step that does not come to its end. -/
theorem never (ready : Ready setting surroundings table pending)
    (stops : Reads step fun _ _ _ => False) :
    Lasts setting uses surroundings table pending step step post lasting where
  keeps := (Keeps.reads (ready.using uses) stops).weaken fun _ _ _ holds => holds.2.2.elim
  same _ _ := rfl
  lasts := by
    intro early done final value _ _ runs _
    have leaves := stops surroundings early
    rw [runs] at leaves
    exact leaves.2.elim

/-- A step that is done elsewhere. -/
theorem inScope {scope : ScopeId} (ready : Ready setting surroundings table pending)
    (lasts : Lasts setting uses { surroundings with current := scope } table pending step checked
      post lasting) :
    Lasts setting uses surroundings table pending (Binding.inScope scope step)
      (Binding.inScope scope checked) post lasting where
  keeps := .inScope (ready.using uses) lasts.keeps
  same := lasts.same
  lasts := lasts.lasts

/-- A step inside a function. -/
theorem inward {scope : ScopeId} (ready : Ready setting surroundings table pending)
    (lasts : Lasts setting.inward uses { surroundings with current := scope } table pending step
      checked post lasting) :
    Lasts setting uses surroundings table pending (Binding.inScope scope step)
      (Binding.inScope scope checked) post lasting where
  keeps := .inward (ready.using uses) lasts.keeps
  same := lasts.same
  lasts := lasts.lasts

/-- A scope that is entered is noted on a node. -/
theorem noting (known : ScopeId → Table → Prop) {enter : Bind ScopeId}
    {entered : ScopeId → Table → Option ScopeId → Prop} {node : Node} (used : .note node.id ∈ uses)
    (isCell : node.isCell = true)
    (first : Lasts setting uses surroundings table pending enter enter entered fun scope state =>
      known scope state.table) :
    Lasts setting uses surroundings table pending
      (do
        let scope ← enter
        annotate node scope
        return scope)
      (do
        let scope ← enter
        annotate node scope
        return scope)
      entered fun scope state => known scope state.table ∧
        state.annotations.scope? node = some scope where
  keeps := by
    refine first.keeps.bind fun scope after left ready _ _ holds => ?_
    exact .annotating ready used (.pure ready holds)
  same _ _ := rfl
  lasts := by
    intro early done final scope sameTable sameHeader runs spares
    rcases ok_of_noting runs with ⟨middle, enters, rfl⟩
    constructor
    · -- the note on the node does not matter to what is known of the table
      have still : Spares uses middle { final with annotations := middle.annotations } :=
        ⟨spares.grows, spares.ways, fun _ _ => rfl, spares.declared⟩
      have knows : known scope ({ final with annotations := middle.annotations } : State).table :=
        first.lasts sameTable sameHeader enters still
      exact knows
    · rw [spares.noted node used]
      cases node with
      | cell => simp [Annotations.scope?, notesOn, Tree.isCell, Tree.label?, Tree.id]
      | _ => cases isCell

/-- A scope is entered and noted on a node, and then more is done. -/
theorem entering (known : ScopeId → Table → Prop) {enter : Bind ScopeId}
    {entered : ScopeId → Table → Option ScopeId → Prop} {node : Node} {next nextChecked : ScopeId → Bind β}
    {final : β → Table → Option ScopeId → Prop} {finish : β → State → Prop}
    (firstly : setting.first = true) (splits : Splits uses front back)
    (used : .note node.id ∈ front) (isCell : node.isCell = true)
    (first : Lasts setting front surroundings table pending enter enter entered fun scope state =>
      known scope state.table)
    (rest : ∀ scope after left, Ready setting surroundings after left →
      Evolves (setting.using front) table after → (left = none ∨ left = pending) →
      entered scope after left →
      Lasts setting back surroundings after left (next scope) (nextChecked scope) final
        fun result state => known scope state.table →
          state.annotations.scope? node = some scope → finish result state) :
    Lasts setting uses surroundings table pending
      (do
        let scope ← enter
        annotate node scope
        next scope)
      (do
        let scope ← enter
        annotate node scope
        nextChecked scope)
      final finish := by
  have lasts := Lasts.bind firstly splits (noting known used isCell first)
    fun scope after left ready evolves header holds =>
      (rest scope after left ready evolves header holds).weaken (fun _ _ _ holds => holds)
        fun _ _ implies both => implies both.1 both.2
  simpa only [bind_assoc, pure_bind] using lasts

theorem discard {final : PUnit → Table → Option ScopeId → Prop}
    {known : State → Prop}
    (lasts : Lasts setting uses surroundings table pending step checked post fun _ => known)
    (implies : ∀ value after left, post value after left → final .unit after left) :
    Lasts setting uses surroundings table pending (Functor.discard step) (Functor.discard checked)
      final fun _ => known where
  keeps := .discard lasts.keeps implies
  same := by
    intro early sameTable sameHeader
    change EStateM.map (fun _ => PUnit.unit) (checked surroundings) early =
      EStateM.map (fun _ => PUnit.unit) (step surroundings) early
    unfold EStateM.map
    rw [lasts.same sameTable sameHeader]
  lasts := by
    intro early done final _ sameTable sameHeader runs spares
    change EStateM.map (fun _ => PUnit.unit) (step surroundings) early = _ at runs
    unfold EStateM.map at runs
    cases result : step surroundings early with
    | error error middle => rw [result] at runs; cases runs
    | ok value middle =>
      rw [result] at runs
      cases runs
      exact lasts.lasts sameTable sameHeader result spares

end Lasts

/-- Some steps, one for each of some nodes. -/
theorem lasts_visits {items : List Node} {step checked : Node → Bind PUnit} {left : Node → State → Prop}
    (firstly : setting.first = true) (ready : Ready setting surroundings table pending)
    (once : Once setting table (Tree.parts items))
    (all : ∀ item ∈ items, ∀ {later next}, Ready setting surroundings later next →
      Once setting later item.preorder →
      Evolves (setting.using (usesOf (Tree.parts items))) table later →
      (next = none ∨ next = pending) →
      Lasts setting (usesOf item.preorder) surroundings later next (step item) (checked item)
        (fun _ _ _ => True) fun _ state => left item state) :
    Lasts setting (usesOf (Tree.parts items)) surroundings table pending (items.forM step)
      (items.forM checked) (fun _ _ _ => True) fun _ state => ∀ item ∈ items, left item state := by
  induction items generalizing table pending with
  | nil => exact .pure ready trivial fun _ _ _ member => absurd member List.not_mem_nil
  | cons first rest ih =>
    rw [Tree.parts_cons] at once all ⊢
    have splits := Splits.ofParts (.refl _) once.distinct
    have behind := once.sublist (List.sublist_append_right ..)
    refine .bind firstly splits (all first (List.mem_cons_self ..) ready
      (once.sublist (List.sublist_append_left ..)) (.refl table) (.inr rfl)) ?_
    intro _ after next ready evolves header _
    refine (ih ready (behind.behind splits.apart evolves) ?_).weaken (fun _ _ _ holds => holds) ?_
    · intro item member later last readyLater onceLater further headerLater
      refine all item (List.mem_cons_of_mem _ member) readyLater onceLater ?_ ?_
      · exact (evolves.widen (narrows_using (.refl setting) splits.inFront)).trans
          (further.widen (narrows_using (.refl setting) splits.inBack))
      · exact headerLater.elim .inl fun same => same ▸ header
    · intro _ state others own item member
      exact (List.mem_cons.mp member).elim (fun same => same ▸ own) (others item)

/-- Some steps with a result that is passed on. -/
theorem lasts_foldlM {items : List Node} {step : β → Node → Bind β} {left : Node → State → Prop}
    (firstly : setting.first = true) (ready : Ready setting surroundings table pending)
    (once : Once setting table (Tree.parts items))
    (all : ∀ item ∈ items, ∀ {value later next}, Ready setting surroundings later next →
      Once setting later item.preorder →
      Lasts setting (usesOf item.preorder) surroundings later next (step value item)
        (step value item) (fun _ _ _ => True) fun _ state => left item state) (initial : β) :
    Lasts setting (usesOf (Tree.parts items)) surroundings table pending (items.foldlM step initial)
      (items.foldlM step initial) (fun _ _ _ => True) fun _ state => ∀ item ∈ items, left item state := by
  induction items generalizing table pending initial with
  | nil => exact .pure ready trivial fun _ _ _ member => absurd member List.not_mem_nil
  | cons first rest ih =>
    rw [Tree.parts_cons] at once ⊢
    rw [List.foldlM_cons]
    have splits := Splits.ofParts (.refl _) once.distinct
    have behind := once.sublist (List.sublist_append_right ..)
    refine .bind firstly splits (all first (List.mem_cons_self ..) ready
      (once.sublist (List.sublist_append_left ..))) ?_
    intro value after next ready evolves _ _
    refine (ih ready (behind.behind splits.apart evolves) (fun item member => ?_) value).weaken
      (fun _ _ _ holds => holds) ?_
    · exact all item (List.mem_cons_of_mem _ member)
    · intro _ state others own item member
      exact (List.mem_cons.mp member).elim (fun same => same ▸ own) (others item)

end Binding
end CppNames
