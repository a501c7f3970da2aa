import CppNames.Proofs.Binding.LastState

namespace CppNames
namespace Binding

/-!
# What is left of namespaces, classes and enumerations

A construct has a scope that is noted on it, its name is bound where it stands, and whatever lies
inside is visited in its scope.  What is known of a visit is only what it leaves behind, so the same
lemmas serve for trees of any size.
-/

open Table

variable {setting : Setting} {surroundings : Surroundings} {table : Table}
  {pending : Option ScopeId} {visit checked : Visit}

/-! ## Visits -/

/-- Some template headers, the innermost first, lie inside one another, and the declaration of the
innermost one comes next.  Nothing is said where there is none. -/
def Under (headers : List Node) (table : Table) (pending : Option ScopeId) : Prop :=
  headers = [] ∨ ∃ route : List ScopeId, scopesOf table headers = route.map some ∧
    pending = route.head? ∧ List.IsChain table.Around route

/-- A visit, behind some headers, of which it lasts what it finds, and that is not stopped by the
checks that are made. -/
def VisitsLast (headers : List Node) (visit checked : Visit) : Prop :=
  ∀ {setting surroundings table pending} (node : Node), setting.first = true →
    Ready setting surroundings table pending → Once setting table node.preorder →
    Under headers table pending → (∀ header ∈ headers, header.id ∉ node.preorder.map Tree.id) →
    Lasts setting (usesOf node.preorder) surroundings table pending (visit node) (checked node)
      (fun _ _ _ => True)
      fun _ state => Traced state.table state.annotations node surroundings.current

/-- A visit behind no header. -/
theorem VisitsLast.plain (well : VisitsLast [] visit checked) {node : Node}
    (firstly : setting.first = true) (ready : Ready setting surroundings table pending)
    (once : Once setting table node.preorder) :
    Lasts setting (usesOf node.preorder) surroundings table pending (visit node) (checked node)
      (fun _ _ _ => True)
      fun _ state => Traced state.table state.annotations node surroundings.current :=
  well node firstly ready once (.inl rfl) fun _ member => absurd member List.not_mem_nil

theorem lasts_visitElements (well : VisitsLast [] visit checked) (firstly : setting.first = true)
    (ready : Ready setting surroundings table pending) {node : Node}
    (once : Once setting table (Tree.parts node.present)) :
    Lasts setting (usesOf (Tree.parts node.present)) surroundings table pending
      (visitElements visit node) (visitElements checked node) (fun _ _ _ => True)
      fun _ state => ∀ item ∈ node.present,
        Traced state.table state.annotations item surroundings.current :=
  lasts_visits firstly ready once fun _ _ _ _ ready once _ _ => well.plain firstly ready once

theorem isCell_of_isA {node : Node} {construct : Construct} (is : node.isA construct = true) :
    node.isCell = true := by
  cases node with
  | cell => rfl
  | _ => cases is

section

variable {notes : Annotations} {node : Node} {scope : ScopeId}

theorem forall_within {items : List Node} {property : Node → ScopeId → Prop}
    (noted : notes.scope? node = some scope) (all : ∀ item ∈ items, property item scope) :
    ∀ child ∈ within notes node items, property child.1 child.2 := by
  unfold within
  rw [noted]
  intro child member
  rcases List.mem_map.mp member with ⟨item, among, rfl⟩
  exact all item among

theorem forall_here {items : List Node} {property : Node → ScopeId → Prop}
    (all : ∀ item ∈ items, property item scope) :
    ∀ child ∈ items.map (·, scope), property child.1 child.2 := by
  intro child member
  rcases List.mem_map.mp member with ⟨item, among, rfl⟩
  exact all item among

theorem spells_of_isA {construct : Construct} (is : node.isA construct = true) :
    node.construct? = some construct := eq_of_beq is

theorem not_isA_of_spells {construct other : Construct} (spells : node.construct? = some construct)
    (apart : construct ≠ other) : ¬ node.isA other = true :=
  fun is => apart (Option.some.inj (spells.symm.trans (spells_of_isA is)))

/-- What is left of a node that is no namespace is what its names are bound to. -/
theorem Remains.of_names {construct : Construct} (spells : node.construct? = some construct)
    (plain : construct ≠ .namespaceSpec)
    (names : ∀ declared ∈ declaredNames node, declared.2.isQualified = false →
      DeclaredIn table scope declared.1 declared.2) : Remains table notes node scope :=
  ⟨names, fun is => absurd is (not_isA_of_spells spells plain)⟩

end

/-- A node that declares nothing has no names. -/
theorem Unbound.declaredIn {uses : Set Use} {label : Tree.NodeId} (unbound : Unbound uses table)
    (used : .declare label ∈ uses) {done final : State} (same : done.table = table)
    (spares : Spares uses done final) (scope : ScopeId) (name : Encoding) :
    DeclaredIn final.table scope label name := by
  intro id member
  have before := spares.declared label used id member
  rw [same] at before
  exact absurd before (unbound.declared label used id)

/-! ## Namespaces -/

theorem Opens.grows {before after : Table} {id : SymbolId} {scope : ScopeId}
    (opens : Opens before id scope) (grows : before.Grows after) : Opens after id scope := by
  rcases opens with ⟨symbol, read, kind, defines⟩
  rcases grows.symbol id symbol read with ⟨later, readLater, grown⟩
  refine ⟨later, readLater, isNamespace_of_body ?_, grown.opened (by rw [kind]; rfl) scope defines⟩
  rw [← grown.resembles.1, kind]
  rfl

theorem Blocks.not_isNamespace {id : SymbolId} (blocks : Blocks table id) :
    ¬ IsNamespace table id := by
  rintro ⟨symbol, read, is⟩
  exact blocks.kind_ne read is

/-- A node has declared a namespace under a name, with a scope that is that of a symbol of this name,
if all of them are namespaces. -/
def OpensAs (label : Tree.NodeId) (name : Encoding) (outer inner : ScopeId) (table : Table) : Prop :=
  DeclaredIn table outer label name ∧
    ((∀ id, Shows table outer name id → IsNamespace table id) →
      ∃ id, Shows table outer name id ∧ Opens table id inner)

/-- The scope of a namespace is that of its symbol, unless something else has its name. -/
theorem lasts_namespaceScope (firstly : setting.first = true)
    (ready : Ready setting surroundings table pending) {node : Node} {name : Encoding}
    (is : setting.content node.id = .namespaceSpec) (unbound : Unbound (usesOf [node]) table)
    (inside : setting.inside → node.id ∈ setting.inner) :
    Lasts setting (usesOf [node]) surroundings table pending (namespaceScope node name)
      (namespaceScope node name)
      (fun scope after left => pending = left ∧ after.HasShape scope .namespaceBody)
      fun scope state => OpensAs node.id name surroundings.current scope state.table := by
  have front := (Splits.declareNote node).inFront
  have used := Set.mem_singleton (Use.note node.id)
  rw [namespaceScope_eq_attempt]
  refine .behind firstly ready reads_current fun outer here => ?_
  subst here
  refine .behind firstly ready (looks_answer _) fun span _ => ?_
  let symbol := Symbol.ofDeclaration name .namespaceName name surroundings.current node.id span
  have attempts : Lasts setting {.declare node.id} surroundings table pending
      (attempt surroundings.current symbol (answer name.shown) span)
      (attempt surroundings.current symbol (answer name.shown) span)
      (fun declared after left =>
        (pending = left ∧ table.Declares surroundings.current symbol after declared) ∧
          table.declare surroundings.current symbol = .ok (after, declared)) _ :=
    .also (lasts_attempt ready (unbound.mono front) nofun (looks_answer _))
      fun same runs => same ▸ (ok_of_attempt (looks_answer _) runs).1
  refine .bind firstly (.declareNote node) attempts ?_
  rintro declared after left ready _ _ ⟨⟨rfl, done⟩, declares⟩
  have houses := ready.houses inside
  cases declared with
  | ok id =>
    have keeps : Keeps (setting.using {Use.note node.id}) surroundings after pending
        (fragmentScope node.id name surroundings.current id) _ :=
      keeps_fragmentScope (ready.using _) is used ready.current houses (Declares.mayHave done rfl)
    refine (Lasts.since firstly (.ofKeeps keeps ?_)).weaken
      (fun _ _ _ holds => ⟨holds.1, holds.2.1⟩) fun _ _ holds => holds
    rintro scope last final ⟨_, _, opens⟩ spares grows _ declared
    exact ⟨declared, fun _ => ⟨id, (Declares.shows done).grows grows, opens.grows spares.grows⟩⟩
  | error refusal =>
    rcases blocks_of_refused (by rfl) (unbound.declared node.id (front rfl)) declares with
      ⟨rfl, _, blocks, found, rest, read, names⟩
    have shows : Shows after surroundings.current name refusal.previous :=
      ⟨found, read, names ▸ List.mem_cons_self ..⟩
    refine .since firstly (.ofKeeps (keeps_refusedScope (ready.using {Use.note node.id}) is used
      ready.current houses refusal.previous) ?_)
    rintro scope last final _ _ grows _ declared
    refine ⟨declared, fun all => absurd (all _ (shows.grows grows)) ?_⟩
    exact (blocks.grows grows).not_isNamespace

theorem lasts_bindNamespace (well : VisitsLast [] visit checked) (firstly : setting.first = true)
    (ready : Ready setting surroundings table pending) {node : Node}
    (once : Once setting table node.preorder) (is : node.isA .namespaceSpec = true) :
    Lasts setting (usesOf node.preorder) surroundings table pending (bindNamespace visit node)
      (bindNamespace checked node) (fun _ _ _ => True)
      fun _ state => Traced state.table state.annotations node surroundings.current := by
  have spells := spells_of_isA is
  have inside : (Tree.parts node.third.present).Sublist (Tree.parts node.elements) :=
    (Tree.parts_present_sublist node.third).trans (Tree.preorder_nth_sublist node 2)
  have splits := once.own is inside
  unfold bindNamespace
  dsimp only
  split
  · refine .entering (OpensAs node.id (namespaceName node) surroundings.current) firstly splits
      (note_mem_usesOf node) (isCell_of_isA is) (lasts_namespaceScope firstly ready (once.self is)
        (once.unbound.mono splits.inFront) (once.insideSelf is)) ?_
    rintro scope after left ready evolves _ ⟨rfl, has⟩
    have parts := (once.nth 2).present.behind splits.apart evolves
    have body : ∀ {later}, Ready setting surroundings later pending → after.Grows later →
        Once setting later (Tree.parts node.third.present) →
        Lasts setting (usesOf (Tree.parts node.third.present)) surroundings later pending
          (inScope scope (visitElements visit node.third))
          (inScope scope (visitElements checked node.third)) (fun _ _ _ => True)
          fun _ state => OpensAs node.id (namespaceName node) surroundings.current scope state.table →
            state.annotations.scope? node = some scope →
              Traced state.table state.annotations node surroundings.current := by
      intro later ready grows once
      have members : later.HasMembers scope := .inl (grows.hasShape has)
      refine (Lasts.inScope ready (lasts_visitElements well firstly (ready.withMembers members)
        once)).weaken (fun _ _ _ holds => holds) ?_
      intro _ state inner own noted
      refine .intro ⟨?_, fun _ => ⟨scope, noted, own.2⟩⟩ ?_
      · unfold declaredNames
        rw [spells]
        rintro declared member _
        cases List.mem_singleton.mp member
        exact own.1
      · unfold visits
        rw [spells]
        exact forall_within noted inner
    split
    · refine .behind firstly ready reads_current fun outer _ => ?_
      refine .bind firstly (.none _) (.only (keeps_addNominated (ready.using ∅) has)) ?_
      rintro _ later left ready evolves _ rfl
      refine (body ready evolves.grows (parts.behind (Set.empty_disjoint _) evolves)).weaken
        (fun _ _ _ holds => holds) fun _ _ holds _ => holds
    · exact body ready (.refl after) parts
  · exact .never ready (reads_malformed _ _ _)

/-! ## Classes -/

/-- A class without a qualifier is bound where it is declared, and one with a qualifier belongs where
the qualifier leads. -/
theorem lasts_declareClass (firstly : setting.first = true)
    (ready : Ready setting surroundings table pending) {specifier : Node} {name : Encoding}
    {kind : SymbolKind} {span : Option Span} (body : kind.family.body? = some .classBody)
    (unbound : Unbound {.declare specifier.id} table) :
    Lasts setting {.declare specifier.id} surroundings table pending
      (declareClass specifier name kind span) (declareClass specifier name kind span)
      (fun declared after left => ((pending = left ∧ DeclaresClass after declared) ∧
          (after.HasMembers declared.scope ∨ declared.scope = surroundings.current)) ∧
        (name.isQualified = true →
          ∀ scope ∈ denoted? table surroundings.current name, declared.scope = scope))
      fun _ state => name.isQualified = false →
        DeclaredIn state.table surroundings.current specifier.id name := by
  have used := Set.mem_singleton (Use.declare specifier.id)
  by_cases qualified : name.isQualified = true
  · have elsewhere : ¬ name.isQualified = false := by simp [qualified]
    refine .also (.ofKeeps (keeps_declareClass_place (ready.using _) body used)
      fun _ _ impossible => absurd impossible elsewhere) ?_
    rintro early done declared rfl runs _
    exact scope_of_declareClass qualified runs
  · have plain : ∀ target, kind = .typedefName (some target) → table.HasSymbol target := by
      rintro target rfl
      cases body
    rw [declareClass_eq_attempt _ _ _ _ qualified]
    refine .behind firstly ready reads_current fun scope here => ?_
    subst here
    refine .bind firstly (.only _) (lasts_attempt ready unbound plain (looks_answer _)) ?_
    rintro declared after left ready _ _ ⟨rfl, done⟩
    cases declared with
    | error refusal =>
      exact .pure ready ⟨⟨⟨rfl, declaresClass_none ready.current _⟩, .inr rfl⟩,
        fun is => absurd is qualified⟩ fun _ _ holds _ => holds
    | ok id =>
      refine .pure ready ⟨⟨⟨rfl, ready.current, ?_⟩, .inr rfl⟩, fun is => absurd is qualified⟩
        fun _ _ holds _ => holds
      rintro other same
      cases same
      exact Declares.mayHave done body

/-- The scope of a class lies where the class belongs, or in the headers, and its members are visited
there. -/
theorem lasts_bindClassBody (well : VisitsLast [] visit checked) (firstly : setting.first = true)
    (ready : Ready setting surroundings table pending) {specifier : Node} {uses : Set Use}
    {header : Option ScopeId} {declared : DeclaredClass} {route : List ScopeId}
    (is : specifier.isA .classSpec = true) (spells : setting.content specifier.id = .classSpec)
    (splits : Splits uses {.note specifier.id} (usesOf (Tree.parts (specifier.nth 3).present)))
    (unbound : Unbound {.note specifier.id} table)
    (once : Once setting table (Tree.parts (specifier.nth 3).present))
    (taken : Taken setting table pending header) (settles : Settles setting header)
    (declares : DeclaresClass table declared)
    (houses : Houses setting table declared.scope specifier.id)
    (same : header = route.head?) (chain : List.IsChain table.Around route) :
    Lasts setting uses surroundings table pending
      (bindClassBody visit specifier (specifier.nth 3) header declared)
      (bindClassBody checked specifier (specifier.nth 3) header declared) (fun _ _ _ => True)
      fun _ state => ∃ scope, state.annotations.scope? specifier = some scope ∧
        List.IsChain state.table.Around
          (scope :: if route = [] then [declared.scope] else route) ∧
        ∀ item ∈ (specifier.nth 3).present,
          Traced state.table state.annotations item scope := by
  rcases taken.outside ready.formed declares.isOpen with ⟨inside, outside⟩
  rw [bindClassBody_eq, bindClassBody_eq]
  refine .entering (fun _ _ => True) firstly splits rfl (isCell_of_isA is) (lasts_scopeFor ready inside ?_ ?_
    (unbound.noted specifier.id rfl) outside fun _ => settles.houses ready.formed houses) ?_
  · exact ⟨rfl, rfl, fun _ member => nomatch member⟩
  · rw [spells]
    rfl
  rintro scope after left ready evolves _ ⟨⟨rfl, noted, _⟩, step, stays, _⟩
  have has : after.HasShape scope .classBody := noted.hasShape spells fun _ bears => bears
  have isOpen : after.Open scope := has.isOpen rfl
  have way : List.IsChain after.Around (scope :: if route = [] then [declared.scope] else route) := by
    cases route with
    | nil =>
      subst same
      exact .cons_cons step (.singleton _)
    | cons first rest =>
      subst same
      exact .cons_cons step (chain.imp stays)
  have declares := declares.grows evolves.grows
  have once := once.behind splits.apart evolves
  refine .since firstly ?_
  refine .bind firstly (.none _) (.only (keeps_bindBases (ready.using ∅) _ _ _)) ?_
  rintro _ bound left ready evolves _ rfl
  have has := evolves.grows.hasShape has
  have once := once.behind (Set.empty_disjoint _) evolves
  refine .bind firstly (.none _) (.only (keeps_defineScope (ready.using ∅)
    (declares.grows evolves.grows).answers has nofun)) ?_
  rintro _ later left ready evolves _ rfl
  have members : later.HasMembers scope := .inr (evolves.grows.hasShape has)
  refine (Lasts.inScope ready (lasts_visitElements well firstly (ready.withMembers members)
    (once.behind (Set.empty_disjoint _) evolves))).weaken (fun _ _ _ holds => holds) ?_
  intro _ state inner _ _ _ ways _ noted
  exact ⟨scope, noted, ways.chain (.inl isOpen) .refl way, inner⟩

section

variable {notes : Annotations} {specifier : Node} {scope : ScopeId}

theorem present_of_isNil {node : Node} (absent : node.isNil = true) : node.present = [] := by
  rw [Tree.eq_nil_of_isNil absent]
  rfl

/-- What is left of a class is what its name is bound to, and what its members leave. -/
theorem traced_class (is : specifier.isA .classSpec = true)
    (names : ∀ name, specifier.name? = some name → name.isQualified = false →
      DeclaredIn table scope specifier.id name)
    (inner : ∀ child ∈ within notes specifier (specifier.nth 3).present,
      Traced table notes child.1 child.2) : Traced table notes specifier scope := by
  have spells := spells_of_isA is
  refine .intro (.of_names spells nofun ?_) ?_
  · unfold declaredNames
    rw [spells]
    intro declared member
    rcases List.mem_filterMap.mp member with ⟨node, among, named⟩
    cases List.mem_singleton.mp among
    rcases Option.map_eq_some_iff.mp named with ⟨name, same, rfl⟩
    exact names name same
  · unfold visits
    rw [spells]
    exact inner

theorem traced_class_of_isNil (is : specifier.isA .classSpec = true)
    (bodyless : (specifier.nth 3).isNil = true)
    (names : ∀ name, specifier.name? = some name → name.isQualified = false →
      DeclaredIn table scope specifier.id name) : Traced table notes specifier scope := by
  refine traced_class is names fun child member => ?_
  unfold within at member
  rw [present_of_isNil bodyless] at member
  cases noted : notes.scope? specifier with
  | none => rw [noted] at member; cases member
  | some inner => rw [noted] at member; cases member

end

/-- The way outwards from a header that stays where it is. -/
theorem Settles.chain {header : Option ScopeId} (settles : Settles setting header)
    {before after : Table} {route : List ScopeId} (same : header = route.head?)
    (ways : KeepsWays setting.settled before after) (chain : List.IsChain before.Around route) :
    List.IsChain after.Around route := by
  cases route with
  | nil => exact .nil
  | cons first rest => exact ways.chain (.inr (settles first same)) .refl chain

/-- The scope of a class with a qualified name lies in the headers, or where the qualifier leads. -/
def routeTo (route : List ScopeId) (target : ScopeId) : List ScopeId :=
  if route = [] then [target] else route

/-- What is left of a class that is declared here, or where its qualifier leads, and of its body. -/
theorem lasts_declaredClass (well : VisitsLast [] visit checked) (firstly : setting.first = true)
    (ready : Ready setting surroundings table pending) {specifier : Node} {header : Option ScopeId}
    {route : List ScopeId} (once : Once setting table specifier.preorder)
    (is : specifier.isA .classSpec = true) (taken : Taken setting table pending header)
    (settles : Settles setting header) (same : header = route.head?)
    (chain : List.IsChain table.Around route) {name : Encoding} {kind : SymbolKind}
    {span : Option Span} {defined : Bool} (named : specifier.name? = some name)
    (hasBody : defined = !(specifier.nth 3).isNil) (body : kind.family.body? = some .classBody) :
    Lasts setting (usesOf specifier.preorder) surroundings table pending
      (do
        let declared ← declareClass specifier name kind span
        if defined then bindClassBody visit specifier (specifier.nth 3) header declared)
      (do
        let declared ← declareClass specifier name kind span
        if defined then bindClassBody checked specifier (specifier.nth 3) header declared)
      (fun _ _ _ => True)
      fun _ state => Traced state.table state.annotations specifier surroundings.current ∧
        ClassLies specifier table surroundings.current state (routeTo route) := by
  have inside : (Tree.parts (specifier.nth 3).present).Sublist (Tree.parts specifier.elements) :=
    (Tree.parts_present_sublist _).trans (Tree.preorder_nth_sublist specifier 3)
  have splits := (once.own is inside).assoc (.declareNote specifier)
  have fits := declare_subset_usesOf (mem_preorder_of_isA is)
  refine .bind firstly splits.1 (lasts_declareClass firstly ready body (once.unbound.mono fits)) ?_
  rintro declared after left ready evolves next ⟨⟨⟨rfl, declares⟩, place⟩, denotes⟩
  have houses : Houses setting after declared.scope specifier.id := by
    rcases place with members | same
    · exact fun _ => .inl (.members members)
    · rw [same]
      exact ready.houses (once.insideSelf is)
  have names : ∀ {state : State}, (name.isQualified = false →
      DeclaredIn state.table surroundings.current specifier.id name) →
      ∀ other, specifier.name? = some other → other.isQualified = false →
        DeclaredIn state.table surroundings.current specifier.id other := by
    intro state declared other same
    rw [named] at same
    cases same
    exact declared
  cases bodyless : (specifier.nth 3).isNil with
  | true =>
    rw [hasBody, bodyless]
    refine .pure ready trivial fun {_ final} _ _ declared => ⟨?_, fun _ impossible => ?_⟩
    · exact traced_class_of_isNil is bodyless (names declared)
    · rw [bodyless] at impossible
      cases impossible
  | false =>
    rw [hasBody, bodyless]
    have apart := splits.1.apart.mono_right splits.2.inBack
    have rest := (once.unbound.mono splits.1.inBack).behind splits.1.apart evolves
    have members := (once.sublist (inside.trans (Tree.parts_elements_sublist specifier))).behind
      apart evolves
    refine (lasts_bindClassBody well firstly ready is (once.self is) splits.2
      (rest.mono splits.2.inFront) members (taken.later evolves.grows rfl rfl next) settles declares
      houses same (settles.chain same (evolves.ways firstly) chain)).weaken
      (fun _ _ _ holds => holds) ?_
    rintro _ state ⟨scope, noted, way, inner⟩ declared
    refine ⟨traced_class is (names declared) (forall_within noted inner), ?_⟩
    intro _ _ other found qualified target member
    rw [named] at found
    cases found
    exact ⟨scope, noted, denotes qualified target member ▸ way⟩

theorem lasts_bindClass (well : VisitsLast [] visit checked) (firstly : setting.first = true)
    (ready : Ready setting surroundings table pending) {specifier : Node} {use : ClassUse}
    {header : Option ScopeId} {route : List ScopeId}
    (once : Once setting table specifier.preorder) (is : specifier.isA .classSpec = true)
    (taken : Taken setting table pending header) (settles : Settles setting header)
    (same : header = route.head?) (chain : List.IsChain table.Around route) :
    Lasts setting (usesOf specifier.preorder) surroundings table pending
      (bindClass visit specifier use header) (bindClass checked specifier use header)
      (fun _ _ _ => True)
      fun _ state => Traced state.table state.annotations specifier surroundings.current ∧
        ClassLies specifier table surroundings.current state (routeTo route) := by
  unfold bindClass
  dsimp only
  split
  · exact .behind firstly ready (reads_malformed _ _ _) fun _ impossible => impossible.elim
  · split
    · exact .never ready (reads_malformed _ _ _)
    · next name named =>
      refine .behind firstly ready (looks_answer _) fun span _ => ?_
      have body : ∀ {defined : Bool}, (if header.isSome = true then SymbolKind.classTemplate defined
          else .classType defined).family.body? = some .classBody := by
        intro defined
        cases header <;> rfl
      split
      · next elaborated =>
        refine .behind firstly ready (looks_namesOnly _ _ _) fun done _ => ?_
        split
        · exact lasts_declaredClass well firstly ready once is taken settles same chain named rfl
            body
        · refine .pure ready trivial fun {done _} same spares => ?_
          have bodyless : (specifier.nth 3).isNil = true := by simp_all
          have fits := declare_subset_usesOf (mem_preorder_of_isA is)
          refine ⟨traced_class_of_isNil is bodyless fun other _ _ => ?_, fun _ impossible => ?_⟩
          · exact once.unbound.declaredIn (fits rfl) same spares _ _
          · rw [bodyless] at impossible
            cases impossible
      · have stays : Reads (pure false) fun _ _ done => done = false := .pure fun _ _ => rfl
        refine .behind firstly ready stays fun done undone => ?_
        subst undone
        exact lasts_declaredClass well firstly ready once is taken settles same chain named rfl
          body

/-! ## Enumerations -/

theorem lasts_bindEnumerator (firstly : setting.first = true)
    (ready : Ready setting surroundings table pending) {type : Encoding} {next : Option Int64}
    {item : Node} (once : Once setting table item.preorder) :
    Lasts setting (usesOf item.preorder) surroundings table pending (bindEnumerator type next item)
      (bindEnumerator type next item) (fun _ _ _ => True)
      fun _ state => ∀ parts, enumeratorParts? item = some parts →
        DeclaredIn state.table surroundings.current parts.1.id (.simpleName parts.1.text) := by
  unfold bindEnumerator
  split
  · next nothing =>
    refine .pure ready trivial fun _ _ parts found => ?_
    rw [nothing] at found
    cases found
  · next named expression parts =>
    rcases enumeratorParts_sublist parts with ⟨sublist, there⟩
    have fits : {Use.declare named.id} ⊆ usesOf item.preorder :=
      declare_subset_usesOf (sublist.subset (Tree.mem_preorder_self there))
    have declares : ∀ value : Option Int64,
        Lasts setting (usesOf item.preorder) surroundings table pending
          (do
            let scope ← current
            declareQuietly scope (.ofDeclaration (.simpleName named.text) (.enumerator value) type
              scope named.id (named.token?.map (·.span)))
            return value.bind successor?)
          (do
            let scope ← current
            declareQuietly scope (.ofDeclaration (.simpleName named.text) (.enumerator value) type
              scope named.id (named.token?.map (·.span)))
            return value.bind successor?)
          (fun _ _ _ => True) fun _ state => ∀ other, enumeratorParts? item = some other →
            DeclaredIn state.table surroundings.current other.1.id (.simpleName other.1.text) := by
      intro value
      refine .behind firstly ready reads_current fun scope here => ?_
      subst here
      refine .bind firstly ((Splits.only _).narrow fits)
        (lasts_declareQuietly firstly ready (once.unbound.mono fits) nofun) ?_
      intro _ after left ready _ _ _
      refine .pure ready trivial fun _ _ declared other found => ?_
      rw [parts] at found
      cases found
      exact declared
    dsimp only
    split
    · exact .behind firstly ready (looks_pure _) fun value _ => declares value
    · exact .behind firstly ready (looks_enumeratorValue _) fun value _ => declares value

/-- What is left of an enumeration is what its names are bound to. -/
theorem traced_enum {notes : Annotations} {specifier : Node} {scope : ScopeId}
    (is : specifier.isA .enumSpec = true)
    (names : specifier.second.isNil = false → ∀ name, specifier.name? = some name →
      name.isQualified = false → DeclaredIn table scope specifier.id name)
    (items : ∀ item ∈ specifier.third.second.present, ∀ parts, enumeratorParts? item = some parts →
      DeclaredIn table scope parts.1.id (.simpleName parts.1.text)) :
    Traced table notes specifier scope := by
  have spells := spells_of_isA is
  refine .intro (.of_names spells nofun ?_) ?_
  · unfold declaredNames
    rw [spells]
    intro declared member
    rcases List.mem_append.mp member with own | inner
    · split at own
      · cases own
      · next there =>
        rcases List.mem_filterMap.mp own with ⟨node, among, named⟩
        cases List.mem_singleton.mp among
        rcases Option.map_eq_some_iff.mp named with ⟨name, same, rfl⟩
        exact names (Bool.eq_false_iff.mpr there) name same
    · rcases List.mem_map.mp inner with ⟨parts, among, rfl⟩
      rcases List.mem_filterMap.mp among with ⟨item, member, found⟩
      exact fun _ => items item member parts found
  · unfold visits
    rw [spells]
    exact fun child impossible => absurd impossible List.not_mem_nil

theorem parts_enumerators_sublist (specifier : Node) :
    (Tree.parts specifier.third.second.present).Sublist (Tree.parts specifier.elements) :=
  ((Tree.parts_present_sublist _).trans (Tree.preorder_nth_sublist specifier.third 1)).trans
    ((Tree.parts_elements_sublist specifier.third).trans (Tree.preorder_nth_sublist specifier 2))

/-- Each enumerator is bound in the scope of the enumeration. -/
theorem lasts_bindEnumerators (firstly : setting.first = true)
    (ready : Ready setting surroundings table pending) {type : Encoding} {items : List Node}
    (once : Once setting table (Tree.parts items)) :
    Lasts setting (usesOf (Tree.parts items)) surroundings table pending
      (discard (items.foldlM (bindEnumerator type) (some 0)))
      (discard (items.foldlM (bindEnumerator type) (some 0)))
      (fun _ _ _ => True) fun _ state => ∀ item ∈ items, ∀ parts,
        enumeratorParts? item = some parts →
          DeclaredIn state.table surroundings.current parts.1.id (.simpleName parts.1.text) :=
  .discard (lasts_foldlM firstly ready once
    (fun _ _ {_ _ _} ready once => lasts_bindEnumerator firstly ready once) (some 0))
    fun _ _ _ _ => trivial

/-- What is left of an enumeration that is declared, if it has a name, and of its enumerators. -/
theorem lasts_declaredEnum (firstly : setting.first = true)
    (ready : Ready setting surroundings table pending) {specifier : Node}
    (once : Once setting table specifier.preorder) (is : specifier.isA .enumSpec = true)
    {name : Encoding} {span : Option Span} (named : specifier.name? = some name) :
    Lasts setting (usesOf specifier.preorder) surroundings table pending
      (do
        if !specifier.second.isNil then
          let scope ← current
          declareQuietly scope (.ofDeclaration name .enumType name scope specifier.id span)
        discard (specifier.third.second.present.foldlM (bindEnumerator name) (some 0)))
      (do
        if !specifier.second.isNil then
          let scope ← current
          declareQuietly scope (.ofDeclaration name .enumType name scope specifier.id span)
        discard (specifier.third.second.present.foldlM (bindEnumerator name) (some 0)))
      (fun _ _ _ => True)
      fun _ state => Traced state.table state.annotations specifier surroundings.current := by
  have items := parts_enumerators_sublist specifier
  have inner := once.sublist (items.trans (Tree.parts_elements_sublist specifier))
  have fits := declare_subset_usesOf (mem_preorder_of_isA is)
  have splits := (once.own is items).narrow (Splits.declareNote specifier).inFront
  split
  · refine .behind firstly ready reads_current fun scope here => ?_
    subst here
    refine .bind firstly splits
      (lasts_declareQuietly firstly ready (once.unbound.mono fits) nofun) ?_
    intro _ after left ready evolves _ _
    refine (lasts_bindEnumerators firstly ready (inner.behind splits.apart evolves)).weaken
      (fun _ _ _ holds => holds) fun _ _ others own => ?_
    refine traced_enum is (fun _ other found _ => ?_) others
    rw [named] at found
    cases found
    exact own
  · next absent =>
    refine ((lasts_bindEnumerators firstly ready inner).widen splits.inBack).weaken
      (fun _ _ _ holds => holds) ?_
    refine fun _ _ others => traced_enum is (fun there => ?_) others
    simp [there] at absent

/-- An enumeration that is only named declares nothing. -/
theorem traced_enum_of_isNil {specifier : Node} (once : Once setting table specifier.preorder)
    (is : specifier.isA .enumSpec = true) (bodyless : specifier.third.isNil = true)
    {done final : State} (same : done.table = table)
    (spares : Spares (usesOf specifier.preorder) done final) (scope : ScopeId) :
    Traced final.table final.annotations specifier scope := by
  have fits := declare_subset_usesOf (mem_preorder_of_isA is)
  refine traced_enum is (fun _ _ _ _ => once.unbound.declaredIn (fits rfl) same spares _ _) ?_
  intro item member
  rw [Tree.eq_nil_of_isNil bodyless] at member
  cases member

theorem lasts_bindEnum (firstly : setting.first = true)
    (ready : Ready setting surroundings table pending) {specifier : Node}
    (once : Once setting table specifier.preorder) (is : specifier.isA .enumSpec = true) :
    Lasts setting (usesOf specifier.preorder) surroundings table pending (bindEnum specifier)
      (bindEnum specifier) (fun _ _ _ => True)
      fun _ state => Traced state.table state.annotations specifier surroundings.current := by
  unfold bindEnum
  dsimp only
  split
  · exact .behind firstly ready (reads_malformed _ _ _) fun _ impossible => impossible.elim
  · split
    · exact .never ready (reads_malformed _ _ _)
    · next name named =>
      refine .behind firstly ready (looks_answer _) fun span _ => ?_
      split
      · next bodyless =>
        refine .behind firstly ready (looks_enumVisible _) fun known _ => ?_
        split
        · exact lasts_declaredEnum firstly ready once is named
        · exact .pure ready trivial fun same spares =>
            traced_enum_of_isNil once is (Bool.and_eq_true_iff.mp bodyless).2 same spares _
      · have stays : Reads (pure false) fun _ _ known => known = false := .pure fun _ _ => rfl
        refine .behind firstly ready stays fun known unknown => ?_
        subst unknown
        exact lasts_declaredEnum firstly ready once is named

/-! ## Type specifiers -/

theorem lasts_bindSpecifier (well : VisitsLast [] visit checked) (firstly : setting.first = true)
    (ready : Ready setting surroundings table pending) {specifier : Node} {use : ClassUse}
    {header : Option ScopeId} {route : List ScopeId}
    (once : Once setting table specifier.preorder)
    (is : specifier.isA .classSpec = true ∨ specifier.isA .enumSpec = true)
    (taken : Taken setting table pending header) (settles : Settles setting header)
    (same : header = route.head?) (chain : List.IsChain table.Around route) :
    Lasts setting (usesOf specifier.preorder) surroundings table pending
      (bindSpecifier visit use header specifier) (bindSpecifier checked use header specifier)
      (fun _ _ _ => True)
      fun _ state => Traced state.table state.annotations specifier surroundings.current ∧
        ClassLies specifier table surroundings.current state (routeTo route) := by
  unfold bindSpecifier
  split
  · next isEnum =>
    refine (lasts_bindEnum firstly ready once isEnum).weaken (fun _ _ _ holds => holds) ?_
    refine fun _ _ traced => ⟨traced, fun isClass => ?_⟩
    exact absurd isClass (not_isA_of_spells (spells_of_isA isEnum) nofun)
  · next other =>
    exact lasts_bindClass well firstly ready once (is.resolve_right other) taken settles same chain

/-- Each of some specifiers, wherever it is bound. -/
theorem lasts_eachSpecifier (well : VisitsLast [] visit checked) (firstly : setting.first = true)
    {items : List Node} {use : ClassUse} {header : Option ScopeId} {route : List ScopeId}
    (are : ∀ item ∈ items, item.isA .classSpec = true ∨ item.isA .enumSpec = true)
    (taken : Taken setting table pending header) (settles : Settles setting header)
    (same : header = route.head?) (chain : List.IsChain table.Around route) :
    ∀ item ∈ items, ∀ {later next}, Ready setting surroundings later next →
      Once setting later item.preorder →
      Evolves (setting.using (usesOf (Tree.parts items))) table later →
      (next = none ∨ next = pending) →
      Lasts setting (usesOf item.preorder) surroundings later next (bindSpecifier visit use header item)
        (bindSpecifier checked use header item) (fun _ _ _ => True)
        fun _ state => Traced state.table state.annotations item surroundings.current ∧
          ClassLies item later surroundings.current state (routeTo route) := by
  intro item member later next ready once evolves left
  exact lasts_bindSpecifier well firstly ready once (are item member)
    (taken.later evolves.grows rfl rfl left) settles same
    (settles.chain same (evolves.ways firstly) chain)

theorem isA_of_mem_typeSpecifiers {words specifier : Node}
    (member : specifier ∈ typeSpecifiers words) :
    specifier.isA .classSpec = true ∨ specifier.isA .enumSpec = true := by
  simpa using (List.mem_filter.mp member).2

theorem parts_typeSpecifiers_sublist (words : Node) :
    (Tree.parts (typeSpecifiers words)).Sublist words.preorder :=
  (Tree.parts_sublist List.filter_sublist).trans (Tree.parts_typeWords_sublist words).1

theorem lasts_bindType (well : VisitsLast [] visit checked) (use : ClassUse)
    (firstly : setting.first = true) (ready : Ready setting surroundings table pending) {words : Node}
    {header : Option ScopeId} {route : List ScopeId} (once : Once setting table words.preorder)
    (taken : Taken setting table pending header) (settles : Settles setting header)
    (same : header = route.head?) (chain : List.IsChain table.Around route) :
    Lasts setting (usesOf words.preorder) surroundings table pending (bindType visit words use header)
      (bindType checked words use header) (fun _ _ _ => True)
      fun _ state => ∀ specifier ∈ typeSpecifiers words,
        Traced state.table state.annotations specifier surroundings.current := by
  have inside := parts_typeSpecifiers_sublist words
  refine Lasts.widen (lasts_visits firstly ready (once.sublist inside) ?_)
    (usesOf_mono inside.subset)
  intro item member later next ready once evolves left
  exact (lasts_eachSpecifier well firstly (fun _ => isA_of_mem_typeSpecifiers) taken settles same chain
    item member ready once evolves left).weaken (fun _ _ _ holds => holds) fun _ _ holds => holds.1

/-- The classes among the specifiers of a type lie right. -/
theorem lies_of_bindType (well : VisitsLast [] visit checked) {use : ClassUse}
    (firstly : setting.first = true) (ready : Ready setting surroundings table pending) {words : Node}
    {header : Option ScopeId} {route : List ScopeId} (once : Once setting table words.preorder)
    (taken : Taken setting table pending header) (settles : Settles setting header)
    (same : header = route.head?) (chain : List.IsChain table.Around route)
    {early done final : State} (sameTable : early.table = table) (sameHeader : early.header = pending)
    (runs : bindType visit words use header surroundings early = .ok () done)
    (spares : Spares (usesOf words.preorder) done final) :
    ∀ index < (typeSpecifiers words).length, ∀ specifier ∈ (typeSpecifiers words)[index]?,
      ∀ middle ∈ stateOf (((typeSpecifiers words).take index).forM (bindSpecifier visit use header)
        surroundings early),
      ClassLies specifier middle.table surroundings.current final (routeTo route) := by
  have inside := parts_typeSpecifiers_sublist words
  refine left_of_visits (bindSpecifier checked use header) (fun item before final =>
      ClassLies item before surroundings.current final (routeTo route)) firstly ready
    (once.sublist inside) (fun item member _ _ ready once evolves left => ?_) sameTable sameHeader runs
    (spares.mono (usesOf_mono inside.subset))
  exact (lasts_eachSpecifier well firstly (fun _ => isA_of_mem_typeSpecifiers) taken settles same chain
    item member ready once evolves left).weaken (fun _ _ _ holds => holds) fun _ _ holds => holds.2

end Binding
end CppNames
