import CppNames.Proofs.Binding.EchoState

namespace CppNames

/-- A part of which it depends on what is visible what it declares, if anything: a class or an
enumeration without a body, and whatever has a qualified name. -/
def Tree.isUnsettled {ι : Type} (part : Tree ι) : Bool :=
  (part.isA .enumSpec && part.third.isNil) ||
  (part.isA .classSpec && ((part.nth 3).isNil || part.name?.any (·.isQualified))) ||
  (part.isA .declarator && part.name?.any (·.isQualified))

namespace Binding

/-!
# Namespaces, classes and enumerations are bound again

A construct enters its scope again and visits what lies inside.  That a visit is echoed is all
that is known of it, as in the first pass.
-/

open Table

/-- Nodes that may be bound twice.  No two of them have one number. -/
structure SuitsTwice (plan : Rebinding) (parts : List Node) : Prop where
  spells : ∀ part ∈ parts, ∀ construct, part.construct? = some construct →
    plan.content part.id = construct
  aliasing : ∀ part ∈ parts, part.isA .usingDeclaration = true → plan.aliasing
  unsettled : ∀ part ∈ parts, part.isUnsettled = true → part.id ∉ plan.settled
  distinct : (parts.map Tree.id).Nodup

/-- A visit that is echoed. -/
def VisitsTwice (plan : Rebinding) (visit : Visit) : Prop :=
  ∀ {surroundings table pending} (node : Node),
    Ready (plan.setting ∅) surroundings table pending → SuitsTwice plan node.preorder →
    Recurs plan (usesOf node.preorder) surroundings table pending (fun _ => True) (visit node)
      (visit node)

variable {plan : Rebinding} {surroundings : Surroundings} {table : Table}
  {pending : Option ScopeId} {visit : Visit} {known : Table → Prop}

namespace SuitsTwice

theorem subperm {parts some : List Node} (suits : SuitsTwice plan parts)
    (inside : some.Subperm parts) : SuitsTwice plan some where
  spells part member := suits.spells part (inside.subset member)
  aliasing part member := suits.aliasing part (inside.subset member)
  unsettled part member := suits.unsettled part (inside.subset member)
  distinct := distinct_of_subperm inside suits.distinct

theorem sublist {parts some : List Node} (suits : SuitsTwice plan parts)
    (sublist : some.Sublist parts) : SuitsTwice plan some :=
  suits.subperm sublist.subperm

theorem self {node : Node} (suits : SuitsTwice plan node.preorder) {construct : Construct}
    (is : node.isA construct = true) : plan.content node.id = construct :=
  suits.spells node (mem_preorder_of_isA is) construct (eq_of_beq is)

theorem nth {node : Node} (suits : SuitsTwice plan node.preorder) (position : Nat) :
    SuitsTwice plan (node.nth position).preorder :=
  suits.sublist ((Tree.preorder_nth_sublist node position).trans (Tree.parts_elements_sublist node))

theorem present {node : Node} (suits : SuitsTwice plan node.preorder) :
    SuitsTwice plan (Tree.parts node.present) :=
  suits.sublist (Tree.parts_present_sublist node)

end SuitsTwice

/-- A node does something itself, and then its parts are bound. -/
theorem SuitsTwice.own {node : Node} {construct : Construct} {inner : List Node}
    (suits : SuitsTwice plan node.preorder) (is : node.isA construct = true)
    (inside : inner.Sublist (Tree.parts node.elements)) :
    Splits (usesOf node.preorder) (usesOf [node]) (usesOf inner) := by
  refine .ofParts ?_ suits.distinct
  rw [preorder_of_isA is]
  exact ((List.Sublist.refl _).append inside).subperm

theorem recurs_visitElements (well : VisitsTwice plan visit)
    (ready : Ready (plan.setting ∅) surroundings table pending) {node : Node}
    (suits : SuitsTwice plan (Tree.parts node.present)) :
    Recurs plan (usesOf (Tree.parts node.present)) surroundings table pending (fun _ => True)
      (visitElements visit node) (visitElements visit node) := by
  refine recurs_visits ready suits.distinct fun item member later left _ _ ready => ?_
  exact well item ready (suits.sublist (Tree.preorder_sublist_of_mem member))

/-! ## Namespaces -/

section

variable {node : Tree.NodeId} {name : Encoding} {outer : ScopeId}

/-- Entering a fragment of a namespace notes nothing on the tree. -/
theorem unnoted_of_fragmentScope {id : SymbolId} {state behind : State} {scope : ScopeId}
    (inside : state.table.HasScope outer)
    (runs : fragmentScope node name outer id surroundings state = .ok scope behind) :
    behind.annotations = state.annotations := by
  rcases Binds.of_bind runs with ⟨symbol, middle, asked, rest⟩
  rcases of_ask asked with ⟨_, rfl⟩
  cases defines : symbol.defines with
  | some known =>
    rw [defines] at rest
    cases rest
    rfl
  | none =>
    rw [defines] at rest
    rcases Binds.of_bind rest with ⟨made, between, created, rest⟩
    rw [createScope_runs inside] at created
    cases created
    cases rest
    rfl

/-- The scope of a namespace is the one that its symbol has. -/
theorem echoes_fragmentScope (ready : Ready (plan.setting ∅) surroundings table pending)
    (is : plan.content node = .namespaceSpec) (isOpen : table.Open outer) {id : SymbolId}
    (may : MayHave table id .namespaceBody) :
    Echoes plan {.note node} surroundings table pending known (fragmentScope node name outer id)
      (refusedScope node name outer id)
      (fun scope after left => pending = left ∧ after.HasShape scope .namespaceBody)
      fun scope other after => other = scope ∧ known after where
  keeps := (keeps_fragmentScope (ready.allowing _) is (Set.mem_singleton (Use.note node)) isOpen
    nofun may).weaken fun _ _ _ holds => ⟨holds.1, holds.2.1⟩
  echo := by
    intro early after scope sameTable sameHeader runs unmet late later other there header knows
      follows runsAgain
    have unnoted := unnoted_of_fragmentScope (sameTable ▸ isOpen.hasScope) runs
    have keeps : Keeps (plan.setting {.note node}) surroundings table pending
        (fragmentScope node name outer id) _ :=
      keeps_fragmentScope (ready.allowing _) is (Set.mem_singleton (Use.note node)) isOpen
        nofun may
    rcases keeps.ends sameTable sameHeader runs with ⟨_, evolves, _, _, left, _, opens⟩
    rcases opens with ⟨symbol, read, kind, defines⟩
    rcases follows.grows.symbol id symbol read with ⟨again, readAgain, grown⟩
    have kindAgain : again.kind = .namespaceName := by
      refine isNamespace_of_body ?_
      rw [← grown.resembles.1, kind]
      rfl
    have definesAgain := grown.opened (by rw [kind]; rfl) scope defines
    rcases Binds.of_bind runsAgain with ⟨found, middle, asked, rest⟩
    rcases of_ask asked with ⟨same, rfl⟩
    rw [readAgain] at same
    cases same
    rw [if_pos kindAgain, definesAgain] at rest
    cases rest
    refine ⟨header ▸ there, header.trans left, .still unnoted rfl rfl (List.prefix_refl _) ?_, rfl,
      knows⟩
    intro label other declared
    rw [sameTable]
    exact (evolves.mem_declarers declared).resolve_right nofun

/-- A namespace that something else is in the way of has a scope of its own. -/
theorem echoes_refusedScope (ready : Ready (plan.setting ∅) surroundings table pending)
    (is : plan.content node = .namespaceSpec) (isOpen : table.Open outer) {previous : SymbolId}
    (blocks : Blocks table previous) (knows : ∀ late, known late → Blocks late previous) :
    Echoes plan {.note node} surroundings table pending known
      (refusedScope node name outer previous) (refusedScope node name outer previous)
      (fun scope after left => pending = left ∧ after.HasShape scope .namespaceBody)
      fun scope other after => other = scope ∧ known after := by
  have bears : (plan.content node).Bears node .namespaceBody := by
    rw [is]
    rfl
  have entering : Echoes plan {.note node} surroundings table pending known
      (scopeFor node outer (.namespaceBody name [node] []))
      (scopeFor node outer (.namespaceBody name [node] []))
      (fun scope after left => pending = left ∧ after.HasShape scope .namespaceBody)
      fun scope other after => other = scope ∧ known after :=
    (echoes_scopeFor ready isOpen.hasScope isFresh_namespaceBody bears).weaken
      (fun _ _ _ holds => ⟨holds.1, holds.2.hasShape is fun _ bears => bears⟩) fun _ _ _ holds => holds
  refine .behind ready (reads_ask _) (reads_ask _) fun symbol read other => ?_
  rw [if_neg (blocks.kind_ne read)]
  refine .given entering.keeps (fun late knowing => (?_ : other.kind ≠ .namespaceName ∧ known late)) ?_
  · exact ⟨(knows late knowing.1).kind_ne knowing.2, knowing.1⟩
  · intro plain
    rw [if_neg plain]
    exact entering

end

/-- A namespace that was refused in the first pass is refused in the second one for the same
reason. -/
theorem Follows.refusesAgain {uses : Set Use} {scope : ScopeId} {symbol : Symbol} {refusal : Refusal}
    {after late later : Table} {answer : Except Refusal SymbolId}
    (is : symbol.kind = .namespaceName) (unmet : Unmet uses table)
    (used : .declare symbol.node ∈ uses)
    (declares : table.declare scope symbol = .ok (after, .error refusal))
    (follows : Follows uses after late)
    (declaresAgain : late.declare scope symbol = .ok (later, answer)) :
    later = late ∧ answer = .error refusal ∧ Blocks table refusal.previous := by
  rcases blocks_of_refused is (unmet symbol.node used) declares with
    ⟨rfl, plain, blocks, found, rest, read, names⟩
  -- the symbol that was met first is met first again, and no namespace has taken its place
  rcases follows.grows.scope scope found read with ⟨again, readAgain, _, more⟩
  rcases more symbol.name with ⟨rest', namesAgain⟩
  rw [names] at namesAgain
  rcases Outcome.of_bind declaresAgain with ⟨verdict, judged, becomes⟩
  rcases Outcome.of_bind judged with ⟨other, readOther, judged⟩
  rw [readAgain] at readOther
  cases readOther
  rcases Outcome.of_bind judged with ⟨earlier, searched, judged⟩
  cases earlier with
  | some previous =>
    have early := follows.declared symbol.node used previous
      (mem_declarers_of_declaredBy? searched)
    exact absurd early (unmet symbol.node used previous)
  | none =>
    rw [← namesAgain] at judged
    rcases Outcome.of_bind judged with ⟨old, readOld, judged⟩
    rw [relation_namespace is, if_neg ((blocks.grows follows.grows).kind_ne readOld)] at judged
    cases judged
    cases becomes
    refine ⟨rfl, ?_, blocks⟩
    rw [← plain]

/-- What is in the way of a namespace in the first pass, is in its way in the second. -/
theorem echoes_attemptNamespace (ready : Ready (plan.setting ∅) surroundings table pending)
    {name : Encoding} {scope : ScopeId} {node : Tree.NodeId} {span : Option Span} {text : Bind String}
    (spells : Looks text) :
    Echoes plan {.declare node} surroundings table pending known
      (attempt scope (.ofDeclaration name .namespaceName name scope node span) text span)
      (attempt scope (.ofDeclaration name .namespaceName name scope node span) text span)
      (fun declared after left => pending = left ∧
        table.Declares scope (.ofDeclaration name .namespaceName name scope node span) after declared)
      fun declared other after => ∃ refusal, other = .error refusal ∧ known after ∧
        (∀ id, declared = .ok id → refusal.previous = id) ∧
        ∀ first, declared = .error first → refusal = first ∧ Blocks table first.previous ∧
          Blocks after first.previous := by
  have echoes : Echoes plan {.declare node} surroundings table pending known
      (attempt scope (.ofDeclaration name .namespaceName name scope node span) text span)
      (attempt scope (.ofDeclaration name .namespaceName name scope node span) text span) _ _ :=
    echoes_attempt ready nofun (fun _ _ => nofun) spells
  have stays := echoes.also (fun declared other late => ∀ first, declared = .error first →
      other = .error first ∧ Blocks table first.previous ∧ Blocks late first.previous) (by
    rintro early after late later _ other rfl runs unmet follows runsAgain first rfl
    have declares := (ok_of_attempt spells runs).1
    rcases follows.refusesAgain (by rfl) unmet (Set.mem_singleton (Use.declare node)) declares
      (ok_of_attempt spells runsAgain).1 with ⟨same, answer, blocks⟩
    have grows := (Declares.grows (declares_of_declare declares)).trans follows.grows
    exact ⟨answer, blocks, same ▸ blocks.grows grows⟩)
  refine stays.weaken (fun _ _ _ holds => holds) ?_
  rintro declared other late ⟨⟨⟨before, knows, done⟩, refused⟩, stays⟩
  cases declared with
  | ok id =>
    cases refused id rfl
    cases done
    exact ⟨_, rfl, knows, fun _ same => Except.ok.inj same, nofun⟩
  | error first =>
    rcases stays first rfl with ⟨rfl, blocks⟩
    cases done
    refine ⟨_, rfl, knows, nofun, ?_⟩
    rintro _ same
    cases same
    exact ⟨rfl, blocks⟩

theorem echoes_namespaceScope (ready : Ready (plan.setting ∅) surroundings table pending)
    {node : Node} {name : Encoding} (is : plan.content node.id = .namespaceSpec) :
    Echoes plan (usesOf [node]) surroundings table pending known (namespaceScope node name)
      (namespaceScope node name)
      (fun scope after left => pending = left ∧ after.HasShape scope .namespaceBody)
      fun scope other after => other = scope ∧ known after := by
  rw [namespaceScope_eq_attempt]
  refine .currently ready (.answering ready fun span => ?_)
  refine .bind (.declareNote node) (echoes_attemptNamespace ready (looks_answer _)) ?_
  rintro declared after left ready _ _ ⟨rfl, done⟩ other
  have used := Set.mem_singleton (Use.note node.id)
  have keeps : Keeps (plan.setting {.note node.id}) surroundings after pending
      (scopeOfDeclared node.id name surroundings.current declared)
      fun scope after left => pending = left ∧ after.HasShape scope .namespaceBody := by
    cases declared with
    | ok id =>
      exact (keeps_fragmentScope (ready.allowing _) is used ready.current nofun
        (Declares.mayHave done rfl)).weaken fun _ _ _ holds => ⟨holds.1, holds.2.1⟩
    | error refusal =>
      exact keeps_refusedScope (ready.allowing _) is used ready.current nofun refusal.previous
  cases other with
  | ok again => exact .never keeps fun late ⟨_, impossible, _⟩ => nomatch impossible
  | error refusal =>
    cases declared with
    | ok id =>
      refine .given keeps (fun late knows => (?_ : refusal.previous = id ∧ known late)) ?_
      · rcases knows with ⟨_, same, knows, own, _⟩
        cases same
        exact ⟨own id rfl, knows⟩
      · rintro rfl
        exact echoes_fragmentScope ready is ready.current (Declares.mayHave done rfl)
    | error first =>
      refine .given keeps (fun late knows => (?_ : (refusal = first ∧ Blocks after first.previous) ∧
        known late ∧ Blocks late first.previous)) ?_
      · rcases knows with ⟨_, same, knows, _, stays⟩
        cases same
        cases done
        rcases stays first rfl with ⟨same, blocks, blocksAgain⟩
        exact ⟨⟨same, blocks⟩, knows, blocksAgain⟩
      · rintro ⟨rfl, blocks⟩
        exact (echoes_refusedScope ready is ready.current blocks fun _ knows => knows.2).weaken
          (fun _ _ _ holds => holds) fun _ _ _ holds => ⟨holds.1, holds.2.1⟩

theorem recurs_addNominated (ready : Ready (plan.setting ∅) surroundings table pending)
    {scope target : ScopeId} (has : table.HasShape target .namespaceBody) :
    Echoes plan ∅ surroundings table pending known (discard (perform (·.addNominated scope target)))
      (discard (perform (·.addNominated scope target))) (fun _ _ left => pending = left)
      fun _ _ _ => True :=
  .ofKeeps (keeps_addNominated (ready.allowing _) has) (fun _ _ _ same => same)
    (fun _ there grows _ => (keeps_addNominated there (grows.hasShape has)).weaken
      fun _ _ _ same => ⟨same, trivial⟩)
    (Set.empty_subset _) fun _ _ _ holds => holds

theorem recurs_bindNamespace (well : VisitsTwice plan visit)
    (ready : Ready (plan.setting ∅) surroundings table pending) {node : Node}
    (suits : SuitsTwice plan node.preorder) (is : node.isA .namespaceSpec = true) :
    Recurs plan (usesOf node.preorder) surroundings table pending (fun _ => True)
      (bindNamespace visit node) (bindNamespace visit node) := by
  unfold bindNamespace
  dsimp only
  split
  · have inside : (Tree.parts node.third.present).Sublist (Tree.parts node.elements) :=
      (Tree.parts_present_sublist node.third).trans (Tree.preorder_nth_sublist node 2)
    refine .entering (suits.own is inside) (note_mem_usesOf node)
      (echoes_namespaceScope ready (suits.self is)) ?_
    rintro scope after left ready grows _ ⟨rfl, has⟩
    have body : ∀ {later}, Ready (plan.setting ∅) surroundings later pending → after.Grows later →
        Recurs plan (usesOf (Tree.parts node.third.present)) surroundings later pending
          (fun _ => True) (inScope scope (visitElements visit node.third))
          (inScope scope (visitElements visit node.third)) := by
      intro later ready grows
      have isOpen := (grows.hasShape has).isOpen rfl
      exact .inScope ready isOpen
        (recurs_visitElements well (ready.elsewhere isOpen) (suits.nth 2).present)
    split
    · refine .currently ready ?_
      refine .bind (.none _) (recurs_addNominated ready has) ?_
      rintro _ later left ready grows _ rfl _
      exact body ready grows
    · exact body ready (.refl after)
  · exact .looks ready (reads_malformed _ _ _).looks (reads_malformed _ _ _).looks

/-! ## Classes -/

/-- The symbols that get the scope may be different ones. -/
theorem echoes_defineScope (ready : Ready (plan.setting ∅) surroundings table pending)
    {symbol other : Option SymbolId} {scope : ScopeId} {shape : Region.Shape}
    (answers : Answers (some shape) table symbol) (has : table.HasShape scope shape)
    (different : shape ≠ .namespaceBody)
    (knows : ∀ late, known late → Answers (some shape) late other) :
    Echoes plan ∅ surroundings table pending known (defineScope symbol scope)
      (defineScope other scope) (fun _ _ left => pending = left) fun _ _ _ => True :=
  .idle (keeps_defineScope ready answers has different) fun late there grows known =>
    keeps_defineScope there (knows late known) (grows.hasShape has) different

theorem echoes_declareClass (ready : Ready (plan.setting ∅) surroundings table pending)
    {specifier : Node} {name : Encoding} {kind : SymbolKind} {span : Option Span}
    (body : kind.family.body? = some .classBody)
    (unsettled : name.isQualified = true → specifier.id ∉ plan.settled) :
    Echoes plan {.declare specifier.id} surroundings table pending known
      (declareClass specifier name kind span) (declareClass specifier name kind span)
      (fun declared after left => pending = left ∧ DeclaresClass after declared)
      fun _ other after => DeclaresClass after other := by
  have used := Set.mem_singleton (Use.declare specifier.id)
  have keeps : Keeps (plan.setting {.declare specifier.id}) surroundings table pending
      (declareClass specifier name kind span) _ := keeps_declareClass (ready.allowing _) body used
  by_cases qualified : name.isQualified = true
  · exact .ofKeeps keeps (fun _ _ _ holds => holds.1)
      (fun late there _ _ => keeps_declareClass there body used)
      (plan.declare_subset_free (unsettled qualified)) fun _ _ _ holds => holds
  · rw [declareClass_eq_attempt _ _ _ _ qualified] at keeps ⊢
    refine .currently ready ?_
    have plain : ∀ target, kind = .typedefName (some target) → table.HasSymbol target := by
      rintro target rfl
      cases body
    have plainAgain : ∀ late, known late → ∀ target, kind = .typedefName (some target) →
        late.HasSymbol target := by
      rintro late _ target rfl
      cases body
    have declares : ∀ {before after : Table} {id : SymbolId}, after.Open surroundings.current →
        before.Declares surroundings.current (.ofDeclaration name kind name surroundings.current
          specifier.id span) after (.ok id) →
        DeclaresClass after ⟨some id, surroundings.current, name⟩ := by
      intro before after id isOpen done
      refine ⟨isOpen, ?_⟩
      rintro other same
      cases same
      exact Declares.mayHave done body
    refine .bind (.only _) (echoes_attempt ready plain plainAgain (looks_answer _)) ?_
    rintro declared after left ready _ _ ⟨rfl, done⟩ other
    have nothing : ∀ {later : Table}, later.Open surroundings.current →
        DeclaresClass later ⟨none, surroundings.current, name⟩ := fun isOpen => ⟨isOpen, nofun⟩
    cases declared with
    | error refusal =>
      cases other with
      | ok again =>
        exact .pure ready ⟨rfl, nothing ready.current⟩
          fun late there ⟨⟨_, _, again⟩, _⟩ => declares there.current again
      | error refusal =>
        exact .pure ready ⟨rfl, nothing ready.current⟩ fun late there _ => nothing there.current
    | ok id =>
      cases other with
      | ok again =>
        exact .pure ready ⟨rfl, declares ready.current done⟩
          fun late there ⟨⟨_, _, again⟩, _⟩ => declares there.current again
      | error refusal =>
        exact .pure ready ⟨rfl, declares ready.current done⟩
          fun late there _ => nothing there.current

theorem recurs_bindClassBody (well : VisitsTwice plan visit)
    (ready : Ready (plan.setting ∅) surroundings table pending) {specifier : Node}
    {header : Option ScopeId} {declared other : DeclaredClass} {uses : Set Use}
    (suits : SuitsTwice plan specifier.preorder) (is : specifier.isA .classSpec = true)
    (splits : Splits uses {.note specifier.id} (usesOf (Tree.parts (specifier.nth 3).present)))
    (taken : Taken (plan.setting ∅) table pending header) (declares : DeclaresClass table declared)
    (knows : ∀ late, known late → DeclaresClass late other)
    (lasts : ∀ before after, before.Grows after → known before → known after) :
    Recurs plan uses surroundings table pending known
      (bindClassBody visit specifier (specifier.nth 3) header declared)
      (bindClassBody visit specifier (specifier.nth 3) header other) := by
  have spells := suits.self is
  rcases taken.outside ready.formed declares.isOpen with ⟨inside, _⟩
  rw [bindClassBody_eq, bindClassBody_eq]
  refine .entering splits rfl (echoes_scopeFor ready inside ?_ ?_) ?_
  · exact ⟨rfl, rfl, fun _ member => nomatch member⟩
  · rw [spells]
    rfl
  rintro scope after left ready grows _ ⟨rfl, noted⟩
  have has : after.HasShape scope .classBody := noted.hasShape spells fun _ bears => bears
  have declares := declares.grows grows
  refine .bind (.none _) (Echoes.carry (.idle (keeps_bindBases ready _ _ _)
    fun late there _ _ => keeps_bindBases there _ _ _) lasts) ?_
  rintro _ bound left ready grows _ rfl _
  have has := grows.hasShape has
  refine .bind (.none _) (echoes_defineScope ready (declares.grows grows).answers has nofun
    fun late known => (knows late known.2).answers) ?_
  rintro _ later left ready grows _ rfl _
  have isOpen := (grows.hasShape has).isOpen rfl
  exact .inScope ready isOpen (recurs_visitElements well (ready.elsewhere isOpen) (suits.nth 3).present)

/-- Whatever a node without a body declares, it may be different in the second pass. -/
theorem Echoes.ofUnsettled {step : Bind Unit} {label : Tree.NodeId}
    (unsettled : label ∉ plan.settled)
    (keeps : ∀ {setting : Setting} {later : Table}, setting.first = false →
      label ∈ setting.declaring → Ready setting surroundings later pending →
      Keeps setting surroundings later pending step fun _ _ left => pending = left)
    (ready : Ready (plan.setting ∅) surroundings table pending) :
    Recurs plan {.declare label} surroundings table pending known step step := by
  have used := Set.mem_singleton (Use.declare label)
  exact (Echoes.ofKeeps (keeps rfl used (ready.allowing _)) (fun _ _ _ same => same)
    (fun late there _ _ => (keeps rfl used there).weaken fun _ _ _ same => ⟨same, trivial⟩)
    (plan.declare_subset_free unsettled) fun _ _ _ (holds : True) => holds).recurs

theorem isUnsettled_of_qualified {specifier : Node} {name : Encoding}
    (is : specifier.isA .classSpec = true) (named : specifier.name? = some name)
    (qualified : name.isQualified = true) : specifier.isUnsettled = true := by
  unfold Tree.isUnsettled
  simp [is, named, qualified]

theorem recurs_bindClass (well : VisitsTwice plan visit)
    (ready : Ready (plan.setting ∅) surroundings table pending) {specifier : Node} {use : ClassUse}
    {header : Option ScopeId} (suits : SuitsTwice plan specifier.preorder)
    (is : specifier.isA .classSpec = true) (taken : Taken (plan.setting ∅) table pending header) :
    Recurs plan (usesOf specifier.preorder) surroundings table pending (fun _ => True)
      (bindClass visit specifier use header) (bindClass visit specifier use header) := by
  have member := mem_preorder_of_isA is
  by_cases bodyless : (specifier.nth 3).isNil = true
  · have unsettled : specifier.isUnsettled = true := by
      unfold Tree.isUnsettled
      simp [is, bodyless]
    refine (Echoes.ofUnsettled (suits.unsettled specifier member unsettled) ?_ ready).widen
      (declare_subset_usesOf member)
    intro setting later _ declaring ready
    exact keeps_bindClass_of_isNil ready bodyless declaring
  · have inside : (Tree.parts (specifier.nth 3).present).Sublist (Tree.parts specifier.elements) :=
      (Tree.parts_present_sublist _).trans (Tree.preorder_nth_sublist specifier 3)
    have splits := (suits.own is inside).assoc (.declareNote specifier)
    unfold bindClass
    simp only [bodyless, Bool.not_false, Bool.true_and, Bool.false_and]
    split
    · exact .behind ready (reads_malformed _ _ _) (reads_malformed _ _ _)
        fun _ impossible => impossible.elim
    split
    · exact .looks ready (reads_malformed _ _ _).looks (reads_malformed _ _ _).looks
    · next name named =>
      refine .answering ready fun span => ?_
      simp only [Bool.false_eq_true, if_false, pure_bind, Bool.not_false, if_true]
      refine .bind splits.1 (echoes_declareClass ready (by cases header <;> rfl) fun qualified =>
        suits.unsettled specifier member (isUnsettled_of_qualified is named qualified)) ?_
      rintro declared after left ready grows next ⟨rfl, declares⟩ other
      exact recurs_bindClassBody well ready suits is splits.2
        (taken.later grows rfl rfl next) declares (fun _ knows => knows)
        fun _ _ grows declares => declares.grows grows

/-! ## Enumerations -/

theorem recurs_bindEnumerator (ready : Ready (plan.setting ∅) surroundings table pending)
    {type : Encoding} {next other : Option Int64} {item : Node} :
    Recurs plan (usesOf item.preorder) surroundings table pending (fun _ => True)
      (bindEnumerator type next item) (bindEnumerator type other item) := by
  unfold bindEnumerator
  split
  · exact .pure ready trivial fun _ _ _ => trivial
  · next named expression parts =>
    rcases enumeratorParts_sublist parts with ⟨sublist, there⟩
    have fits : {Use.declare named.id} ⊆ usesOf item.preorder :=
      declare_subset_usesOf (sublist.subset (Tree.mem_preorder_self there))
    have declares : ∀ value again : Option Int64,
        Recurs plan (usesOf item.preorder) surroundings table pending (fun _ => True)
          (do
            let scope ← current
            declareQuietly scope (.ofDeclaration (.simpleName named.text) (.enumerator value) type
              scope named.id (named.token?.map (·.span)))
            return value.bind successor?)
          (do
            let scope ← current
            declareQuietly scope (.ofDeclaration (.simpleName named.text) (.enumerator again) type
              scope named.id (named.token?.map (·.span)))
            return again.bind successor?) := by
      intro value again
      refine .currently ready ?_
      refine .bind ((Splits.only _).narrow fits) (recurs_declareQuietly ready nofun fun _ _ => nofun) ?_
      intro _ after left ready _ _ _ _
      exact .pure ready trivial fun _ _ _ => trivial
    dsimp only
    split
    · exact .behindAny ready (looks_pure _) (looks_pure _) declares
    · exact .behindAny ready (looks_enumeratorValue _) (looks_enumeratorValue _) declares

theorem recurs_bindEnum (ready : Ready (plan.setting ∅) surroundings table pending)
    {specifier : Node} (suits : SuitsTwice plan specifier.preorder)
    (is : specifier.isA .enumSpec = true) :
    Recurs plan (usesOf specifier.preorder) surroundings table pending (fun _ => True)
      (bindEnum specifier) (bindEnum specifier) := by
  have member := mem_preorder_of_isA is
  by_cases bodyless : specifier.third.isNil = true
  · have unsettled : specifier.isUnsettled = true := by
      unfold Tree.isUnsettled
      simp [is, bodyless]
    refine (Echoes.ofUnsettled (suits.unsettled specifier member unsettled) ?_ ready).widen
      (declare_subset_usesOf member)
    intro setting later _ declaring ready
    exact keeps_bindEnum_of_isNil ready bodyless declaring
  · have items : (Tree.parts specifier.third.second.present).Sublist (Tree.parts specifier.elements) :=
      ((Tree.parts_present_sublist _).trans (Tree.preorder_nth_sublist specifier.third 1)).trans
        ((Tree.parts_elements_sublist specifier.third).trans (Tree.preorder_nth_sublist specifier 2))
    have splits := (suits.own is items).narrow (Splits.declareNote specifier).inFront
    have distinct := (suits.sublist (items.trans (Tree.parts_elements_sublist specifier))).distinct
    have enumerators : ∀ {type later left}, Ready (plan.setting ∅) surroundings later left →
        Recurs plan (usesOf (Tree.parts specifier.third.second.present)) surroundings later left
          (fun _ => True)
          (discard (specifier.third.second.present.foldlM (bindEnumerator type) (some 0)))
          (discard (specifier.third.second.present.foldlM (bindEnumerator type) (some 0))) :=
      fun ready => .discard (recurs_foldlM ready distinct
        (fun item _ {_ _ _ _} ready => recurs_bindEnumerator ready) (some 0) (some 0))
    unfold bindEnum
    simp only [bodyless, Bool.not_false, Bool.true_and, Bool.and_false]
    split
    · exact .behind ready (reads_malformed _ _ _) (reads_malformed _ _ _)
        fun _ impossible => impossible.elim
    split
    · exact .looks ready (reads_malformed _ _ _).looks (reads_malformed _ _ _).looks
    · refine .answering ready fun span => ?_
      simp only [Bool.false_eq_true, if_false, pure_bind, Bool.not_false, if_true]
      split
      · refine .currently ready (.bind splits (recurs_declareQuietly ready nofun fun _ _ => nofun) ?_)
        intro _ after left ready _ _ _ _
        exact enumerators ready
      · exact (enumerators ready).widen splits.inBack

/-! ## Type specifiers -/

theorem recurs_bindSpecifier (well : VisitsTwice plan visit)
    (ready : Ready (plan.setting ∅) surroundings table pending) {specifier : Node} {use : ClassUse}
    {header : Option ScopeId} (suits : SuitsTwice plan specifier.preorder)
    (is : specifier.isA .classSpec = true ∨ specifier.isA .enumSpec = true)
    (taken : Taken (plan.setting ∅) table pending header) :
    Recurs plan (usesOf specifier.preorder) surroundings table pending (fun _ => True)
      (bindSpecifier visit use header specifier) (bindSpecifier visit use header specifier) := by
  unfold bindSpecifier
  split
  · next isEnum => exact recurs_bindEnum ready suits isEnum
  · next other => exact recurs_bindClass well ready suits (is.resolve_right other) taken

theorem recurs_bindType (well : VisitsTwice plan visit)
    (ready : Ready (plan.setting ∅) surroundings table pending) {words : Node} {use : ClassUse}
    {header : Option ScopeId} (suits : SuitsTwice plan words.preorder)
    (taken : Taken (plan.setting ∅) table pending header) :
    Recurs plan (usesOf words.preorder) surroundings table pending (fun _ => True)
      (bindType visit words use header) (bindType visit words use header) := by
  have specifiers : (Tree.parts (typeSpecifiers words)).Sublist words.preorder :=
    (Tree.parts_sublist List.filter_sublist).trans (Tree.parts_typeWords_sublist words).1
  have inside := suits.sublist specifiers
  refine (recurs_visits ready inside.distinct ?_).widen (usesOf_mono specifiers.subset)
  intro item member later left grows next ready
  exact recurs_bindSpecifier well ready (inside.sublist (Tree.preorder_sublist_of_mem member))
    (by simpa using (List.mem_filter.mp member).2) (taken.later grows rfl rfl next)

end Binding
end CppNames
