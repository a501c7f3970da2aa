import CppNames.Proofs.Binding.EchoType
import CppNames.Proofs.Binding.Passes

namespace CppNames
namespace Binding

/-!
# Declarations and trees are bound again

The scopes of a function, of its parameters and of a template header are entered again, wherever
the name of the function leads to in the second pass.  Whatever a node spells, binding it is echoed
if binding the nodes inside it is.  By induction on the size of a tree this holds of the whole tree.
-/

open Table

variable {plan : Rebinding} {surroundings : Surroundings} {table : Table}
  {pending : Option ScopeId} {visit : Visit} {known : Table → Prop}

/-! ## Functions -/

theorem echoes_prototypeScope (ready : Ready (plan.setting ∅) surroundings table pending)
    {declarator : Node} {outer outerAgain : ScopeId}
    (is : plan.content declarator.id = .declarator) (inside : table.HasScope outer) :
    Echoes plan {.note declarator.id} surroundings table pending known
      (prototypeScope declarator outer) (prototypeScope declarator outerAgain)
      (fun scope after left => pending = left ∧ after.HasShape scope .prototype)
      fun scope other after => other = scope ∧ known after := by
  refine .noting _ rfl ((echoes_scopeFor ready inside ?_ ?_).weaken ?_ fun _ _ _ holds => holds)
  · exact ⟨rfl, rfl, fun _ member => nomatch member⟩
  · rw [is]
    rfl
  · exact fun _ _ _ holds => ⟨holds.1, holds.2.hasShape is fun _ bears => bears⟩

theorem recurs_bindParameter (well : VisitsTwice plan visit)
    (ready : Ready (plan.setting ∅) surroundings table pending) {scope : ScopeId} {parameter : Node}
    (suits : SuitsTwice plan parameter.preorder)
    (is : parameter.isA .parameterDeclaration = true) :
    Recurs plan (usesOf parameter.preorder) surroundings table pending (fun _ => True)
      (bindParameter visit scope parameter) (bindParameter visit scope parameter) := by
  have inside : (Tree.parts parameter.third.present).Sublist (Tree.parts parameter.elements) :=
    (Tree.parts_present_sublist _).trans (Tree.preorder_nth_sublist parameter 2)
  have splits := (suits.own is inside).narrow (Splits.declareNote parameter).inFront
  unfold bindParameter
  dsimp only
  split
  · refine .answering ready fun span => ?_
    refine .bind splits (recurs_declareQuietly ready nofun fun _ _ => nofun) ?_
    intro _ after left ready _ _ _ _
    exact recurs_visitElements well ready (suits.nth 2).present
  · exact (recurs_visitElements well ready (suits.nth 2).present).widen splits.inBack

theorem recurs_bindParameters (well : VisitsTwice plan visit)
    (ready : Ready (plan.setting ∅) surroundings table pending) {scope : ScopeId} {parameters : Node}
    (suits : SuitsTwice plan parameters.preorder) (isOpen : table.Open scope) :
    Recurs plan (usesOf parameters.preorder) surroundings table pending (fun _ => True)
      (bindParameters visit parameters scope) (bindParameters visit parameters scope) := by
  have declared : (Tree.parts (parameters.present.filter (·.isA .parameterDeclaration))).Sublist
      parameters.preorder :=
    (Tree.parts_sublist List.filter_sublist).trans (Tree.parts_present_sublist parameters)
  have inside := suits.sublist declared
  refine .inScope ready isOpen (Echoes.widen ?_ (usesOf_mono declared.subset))
  refine recurs_visits (ready.elsewhere isOpen) inside.distinct fun item member _ _ _ _ ready => ?_
  exact recurs_bindParameter well ready
    (inside.sublist (Tree.preorder_sublist_of_mem member)) (List.mem_filter.mp member).2

/-- What a declarator with a qualified name declares depends on where the qualifier leads. -/
theorem SuitsTwice.unsettled_of_qualified {parts : List Node} (suits : SuitsTwice plan parts)
    {declarator : Node} (member : declarator ∈ parts) (is : declarator.isA .declarator = true)
    {name : Encoding} (named : declarator.name? = some name) (qualified : name.isQualified = true) :
    declarator.id ∉ plan.settled := by
  refine suits.unsettled declarator member ?_
  unfold Tree.isUnsettled
  simp [is, named, qualified]

theorem recurs_bindPrototype (well : VisitsTwice plan visit)
    (ready : Ready (plan.setting ∅) surroundings table pending) {declarator : Node}
    {name type : Encoding} {span : Option Span} {storage : Storage} {header : Option ScopeId}
    (suits : SuitsTwice plan declarator.preorder) (is : declarator.isA .declarator = true)
    (named : declarator.name? = some name) (taken : Taken (plan.setting ∅) table pending header) :
    Recurs plan (usesOf declarator.preorder) surroundings table pending (fun _ => True)
      (bindPrototype visit declarator name type span storage header)
      (bindPrototype visit declarator name type span storage header) := by
  have spells := suits.self is
  have splits := (suits.own is (Tree.preorder_elementBehind_sublist declarator .openParen)).assoc
    (.declareNote declarator)
  have parameters : SuitsTwice plan declarator.parameterList.preorder :=
    suits.sublist ((Tree.preorder_elementBehind_sublist declarator _).trans
      (Tree.parts_elements_sublist declarator))
  unfold bindPrototype
  split
  · exact .pure ready trivial fun _ _ _ => trivial
  have plain := (body_functionKind declarator.parameterList header.isSome false).2
  refine .bind splits.1 (echoes_declareNamed ready plain plain
    (suits.unsettled_of_qualified (mem_preorder_of_isA is) is named)) ?_
  rintro ⟨id, scope⟩ after left ready grows next ⟨rfl, _, isOpen⟩ ⟨other, scopeAgain⟩
  rcases (taken.later grows rfl rfl next).outside ready.formed isOpen with ⟨inside, _⟩
  refine .bindSame splits.2 (echoes_prototypeScope ready spells inside) ?_
  rintro prototype later left ready _ _ ⟨rfl, has⟩
  exact (recurs_bindParameters well ready parameters (has.isOpen rfl)).knowing fun _ _ => trivial

/-- What the nodes of a function definition spell, and that they are different ones. -/
structure DefinesTwice (plan : Rebinding) (node declarator body : Node) : Prop where
  isDeclaration : plan.content node.id = .declaration
  isDeclarator : plan.content declarator.id = .declarator
  isBlock : plan.content body.id = .block
  apart : declarator.id ≠ node.id ∧ declarator.id ≠ body.id ∧ node.id ≠ body.id

theorem echoes_functionScope (ready : Ready (plan.setting ∅) surroundings table pending)
    {node declarator body : Node} {name : Encoding} {outer outerAgain : ScopeId}
    (defines : DefinesTwice plan node declarator body) (inside : table.HasScope outer)
    (lasts : ∀ before after, before.Grows after → known before → known after) :
    Echoes plan (notesOf node declarator body) surroundings table pending known
      (functionScope node declarator body name outer)
      (functionScope node declarator body name outerAgain)
      (fun scopes after left => pending = left ∧ after.HasShape scopes.1 .prototype ∧
        after.HasShape scopes.2 .functionBody)
      fun scopes other after => other = scopes ∧ known after := by
  rcases defines with ⟨isDeclaration, isDeclarator, isBlock, notNode, notBody, other⟩
  rcases Splits.notesOf notNode notBody other with ⟨first, rest⟩
  refine .bindSame first (echoes_prototypeScope ready isDeclarator inside) ?_
  rintro prototype after left ready grows _ ⟨rfl, hasPrototype⟩
  refine .answering ready fun last => .answering ready fun key => ?_
  refine .entering rest rfl (echoes_scopeFor ready (grows.hasScope inside) ?_ ?_) ?_
  · refine ⟨rfl, rfl, fun other member => ?_⟩
    cases member
    exact hasPrototype.hasScope
  · rw [isDeclaration]
    rfl
  rintro scope later left ready grows _ ⟨rfl, noted⟩
  have has : later.HasShape scope .functionBody := noted.hasShape isDeclaration fun _ bears => bears
  have hasPrototype := grows.hasShape hasPrototype
  have bears : (plan.content body.id).Bears body.id .functionBody := by
    rw [isBlock]
    exact .inl rfl
  refine .annotating (Set.mem_singleton _) ready ?_
  refine .bind (.only _) ((echoes_setNodeScope ready has bears).carry lasts) ?_
  rintro _ last left ready grows _ ⟨rfl, rfl⟩ _
  exact .pure ready ⟨rfl, grows.hasShape hasPrototype, grows.hasShape has⟩
    fun _ _ knows => ⟨rfl, knows.2⟩

/-- The header may be moved elsewhere in the second pass. -/
theorem echoes_moveHeader (ready : Ready (plan.setting ∅) surroundings table pending)
    {name : Encoding} {header : Option ScopeId} {declaring again : ScopeId}
    (isHeader : ∀ scope, header = some scope → IsHeader table scope)
    (isOpen : table.Open declaring) (knows : ∀ late, known late → late.Open again) :
    Echoes plan ∅ surroundings table pending known (moveHeader name header declaring)
      (moveHeader name header again) (fun _ _ left => pending = left) fun _ _ _ => True :=
  .idle (keeps_moveHeader ready isHeader nofun nofun isOpen) fun late there grows known =>
    keeps_moveHeader there (fun scope same => (isHeader scope same).grows grows) nofun nofun
      (knows late known)

theorem recurs_bindFunctionBody (well : VisitsTwice plan visit)
    (ready : Ready (plan.setting ∅) surroundings table pending) {node body : Node}
    (suits : SuitsTwice plan ((memberInitializers node).preorder ++ Tree.parts body.present)) :
    Recurs plan (usesOf ((memberInitializers node).preorder ++ Tree.parts body.present))
      surroundings table pending (fun _ => True) (bindFunctionBody visit node body)
      (bindFunctionBody visit node body) := by
  have splits := Splits.ofParts (.refl _) suits.distinct
  have initializers := suits.sublist (List.sublist_append_left ..)
  have elements := suits.sublist (List.sublist_append_right ..)
  unfold bindFunctionBody
  dsimp only
  split
  · next there =>
    rw [memberInitializers_eq_nth (Bool.and_eq_true_iff.mp there).2] at initializers splits ⊢
    refine .bind splits (well (node.nth 3) ready initializers) ?_
    intro _ after left ready _ _ _ _
    exact recurs_visitElements well ready elements
  · exact (recurs_visitElements well ready elements).widen splits.inBack

theorem recurs_bindDefinition (well : VisitsTwice plan visit)
    (ready : Ready (plan.setting ∅) surroundings table pending) {node declarator body : Node}
    {name : Encoding} {header : Option ScopeId}
    (suits : SuitsTwice plan (definitionParts node declarator body))
    (defines : DefinesTwice plan node declarator body)
    (unsettled : name.isQualified = true → declarator.id ∉ plan.settled)
    (taken : Taken (plan.setting ∅) table pending header) :
    Recurs plan (usesOf (definitionParts node declarator body)) surroundings table pending
      (fun _ => True) (bindDefinition visit node declarator body name header)
      (bindDefinition visit node declarator body name header) := by
  have splits := (Splits.ofParts (.refl _) suits.distinct).assoc (.definition node declarator body)
  have inner := suits.sublist (List.sublist_append_right ..)
  have kinds := body_functionKind declarator.parameterList header.isSome true
  have lasts : ∀ {symbol : Option SymbolId} {scope : ScopeId} (before after : Table),
      before.Grows after → Answers (some .functionBody) before symbol ∧ before.Open scope →
        Answers (some .functionBody) after symbol ∧ after.Open scope :=
    fun _ _ grows holds => ⟨holds.1.grows grows, grows.isOpen holds.2⟩
  rw [bindDefinition_eq]
  refine .answering ready fun span => ?_
  refine .bind splits.1 (echoes_declareNamed ready kinds.2 kinds.2 unsettled) ?_
  rw [kinds.1]
  rintro ⟨symbol, declaring⟩ after left ready grows next ⟨rfl, answers, isOpen⟩ ⟨other, again⟩
  have taken := taken.later grows rfl rfl next
  refine .bind (.none _) (.carry (echoes_moveHeader ready (fun scope same => (taken scope same).2.1)
    isOpen fun _ knows => knows.2) lasts) ?_
  rintro _ moved left ready grows next rfl _
  have isOpen := grows.isOpen isOpen
  have answers := answers.grows grows
  rcases (taken.later grows rfl rfl next).outside ready.formed isOpen with ⟨inside, _⟩
  refine .bindSame splits.2 (echoes_functionScope ready defines inside
    fun _ _ grows knows => ⟨trivial, lasts _ _ grows knows.2⟩) ?_
  rintro ⟨prototype, scope⟩ later left ready grows _ ⟨rfl, hasPrototype, has⟩
  refine .bind (.none _) (echoes_defineScope ready (answers.grows grows) has nofun
    fun _ knows => knows.2.1) ?_
  rintro _ entered left ready grows _ rfl _
  have hasPrototype := grows.hasShape hasPrototype
  have has := grows.hasShape has
  refine .bind (.ofParts (.refl _) inner.distinct) (recurs_bindParameters well ready
    (inner.sublist (List.sublist_append_left ..)) (hasPrototype.isOpen rfl)) ?_
  intro _ last left ready grows _ _ _
  have isOpen := (grows.hasShape has).isOpen rfl
  exact .inScope ready isOpen (recurs_bindFunctionBody well (ready.elsewhere isOpen)
    (inner.sublist (List.sublist_append_right ..)))

theorem recurs_bindFunction (well : VisitsTwice plan visit)
    (ready : Ready (plan.setting ∅) surroundings table pending) {node : Node}
    {header : Option ScopeId} (suits : SuitsTwice plan (definitionParts node node.third node.last))
    (defines : DefinesTwice plan node node.third node.last)
    (isDeclarator : node.third.isA .declarator = true)
    (taken : Taken (plan.setting ∅) table pending header) :
    Recurs plan (usesOf (definitionParts node node.third node.last)) surroundings table pending
      (fun _ => True) (bindFunction visit node header) (bindFunction visit node header) := by
  unfold bindFunction
  dsimp only
  split
  · exact .looks ready (reads_malformed _ _ _).looks (reads_malformed _ _ _).looks
  split
  · exact .looks ready (reads_malformed _ _ _).looks (reads_malformed _ _ _).looks
  split
  · exact .looks ready (reads_malformed _ _ _).looks (reads_malformed _ _ _).looks
  · next name named =>
    have among : node.third ∈ definitionParts node node.third node.last := by
      simp [definitionParts]
    exact recurs_bindDefinition well ready suits defines
      (suits.unsettled_of_qualified among isDeclarator named) taken

/-! ## Variables -/

theorem recurs_bindDeclarator (well : VisitsTwice plan visit)
    (ready : Ready (plan.setting ∅) surroundings table pending) {declarator : Node}
    {storage : Storage} {header : Option ScopeId} (suits : SuitsTwice plan declarator.preorder)
    (is : declarator.isA .declarator = true) (taken : Taken (plan.setting ∅) table pending header) :
    Recurs plan (usesOf declarator.preorder) surroundings table pending (fun _ => True)
      (bindDeclarator visit storage header declarator)
      (bindDeclarator visit storage header declarator) := by
  have inside : (Tree.parts declarator.present).Sublist (Tree.parts declarator.elements) :=
    Tree.parts_sublist List.filter_sublist
  have splits := (suits.own is inside).narrow (Splits.declareNote declarator).inFront
  unfold bindDeclarator
  split
  · exact (recurs_visitElements well ready suits.present).widen splits.inBack
  · next name named =>
    refine .answering ready fun span => ?_
    split
    · exact recurs_bindPrototype well ready suits is named taken
    · refine .behindBoth ready (reads_variableKind _ _ _) (reads_variableKind _ _ _)
        fun kind again plain plainAgain => ?_
      have unsettled := suits.unsettled_of_qualified (mem_preorder_of_isA is) is named
      refine .bind splits (.discard (echoes_declareNamed ready plain.2 plainAgain.2 unsettled)) ?_
      intro _ after left ready _ _ _ _
      exact recurs_visitElements well ready suits.present

/-! ## Declarations -/

/-- A declaration that defines a function. -/
theorem recurs_definition (well : VisitsTwice plan visit)
    (ready : Ready (plan.setting ∅) surroundings table pending) {node : Node}
    {header : Option ScopeId} (suits : SuitsTwice plan node.preorder)
    (is : node.isA .declaration = true) (isDeclarator : node.third.isA .declarator = true)
    (taken : Taken (plan.setting ∅) table pending header) :
    Recurs plan (usesOf node.preorder) surroundings table pending (fun _ => True)
      (do
        bindType visit node.second .elaborated none
        bindFunction visit node header)
      (do
        bindType visit node.second .elaborated none
        bindFunction visit node header) := by
  by_cases isBlock : node.last.isA .block = true
  · have inside := definition_subperm is isDeclarator isBlock
    have parts := suits.subperm inside
    have block : node.last ∈ node.second.preorder ++ definitionParts node node.third node.last := by
      simp [definitionParts]
    have behind := parts.sublist (List.sublist_append_right ..)
    have defines : DefinesTwice plan node node.third node.last :=
      ⟨suits.self is, (suits.nth 2).self isDeclarator, parts.spells _ block _ (eq_of_beq isBlock),
        apart_of_definitionParts behind.distinct⟩
    refine .bind (.ofParts inside suits.distinct)
      (recurs_bindType well ready (suits.nth 1) .none) ?_
    intro _ after left ready grows next _ _
    exact recurs_bindFunction well ready behind defines isDeclarator
      (taken.later grows rfl rfl next)
  · refine .bind (.only _) ((recurs_bindType well ready (suits.nth 1) .none).widen ?_) ?_
    · exact usesOf_mono ((Tree.preorder_nth_sublist node 1).trans
        (Tree.parts_elements_sublist node)).subset
    intro _ after left ready _ _ _ _
    exact .looks ready (stops_bindFunction isBlock).looks (stops_bindFunction isBlock).looks

/-- A declaration that declares variables, function prototypes or types only. -/
theorem recurs_simpleDeclaration (well : VisitsTwice plan visit)
    (ready : Ready (plan.setting ∅) surroundings table pending) {node : Node} {storage : Storage}
    {use : ClassUse} {header inner : Option ScopeId} (suits : SuitsTwice plan node.preorder)
    (taken : Taken (plan.setting ∅) table pending header)
    (takenInner : Taken (plan.setting ∅) table pending inner) :
    Recurs plan (usesOf node.preorder) surroundings table pending (fun _ => True)
      (do
        bindType visit node.second use inner
        (node.third.present.filter (·.isA .declarator)).forM (bindDeclarator visit storage header))
      (do
        bindType visit node.second use inner
        (node.third.present.filter (·.isA .declarator)).forM
          (bindDeclarator visit storage header)) := by
  have both := wordsAndDeclarators_sublist node
  refine .bind (.ofParts both.subperm suits.distinct)
    (recurs_bindType well ready (suits.nth 1) takenInner) ?_
  intro _ after left ready grows next _ _
  have behind := suits.sublist ((List.sublist_append_right ..).trans both)
  refine recurs_visits ready behind.distinct fun item member later left growsOn header ready => ?_
  exact recurs_bindDeclarator well ready
    (behind.sublist (Tree.preorder_sublist_of_mem member)) (List.mem_filter.mp member).2
    ((taken.later grows rfl rfl next).later growsOn rfl rfl header)

theorem recurs_bindDeclaration (well : VisitsTwice plan visit)
    (ready : Ready (plan.setting ∅) surroundings table pending) {node : Node}
    (suits : SuitsTwice plan node.preorder) (is : node.isA .declaration = true) :
    Recurs plan (usesOf node.preorder) surroundings table pending (fun _ => True)
      (bindDeclaration visit node) (bindDeclaration visit node) := by
  have taken := ready.taken
  unfold bindDeclaration
  refine .bindSame (.none _) (echoes_takeHeader ready) ?_
  rintro header after left ready _ _ ⟨rfl, rfl, rfl⟩
  dsimp only
  split
  · next isDeclarator => exact recurs_definition well ready suits is isDeclarator taken
  · split
    · exact recurs_simpleDeclaration well ready suits taken taken
    · exact recurs_simpleDeclaration well ready suits taken .none

/-! ## Type definitions -/

theorem recurs_bindTypedefName (ready : Ready (plan.setting ∅) surroundings table pending)
    {declarator : Node} :
    Recurs plan {.declare declarator.id} surroundings table pending known
      (bindTypedefName declarator) (bindTypedefName declarator) := by
  unfold bindTypedefName
  split
  · exact .pure ready trivial fun _ _ _ => trivial
  · dsimp only
    refine .currently ready ?_
    refine .behind ready (reads_aliasedSymbol _) (reads_aliasedSymbol _) fun found there other => ?_
    refine .answering ready fun span => recurs_declareQuietly ready ?_ ?_
    · rintro target same
      cases same
      exact there target rfl
    · rintro late ⟨_, thereAgain⟩ target same
      cases same
      exact thereAgain target rfl

theorem recurs_bindTypedef (well : VisitsTwice plan visit)
    (ready : Ready (plan.setting ∅) surroundings table pending) {node : Node}
    (suits : SuitsTwice plan node.preorder) :
    Recurs plan (usesOf node.preorder) surroundings table pending (fun _ => True)
      (bindTypedef visit node) (bindTypedef visit node) := by
  have both := wordsAndDeclarators_sublist node
  refine .bind (.ofParts both.subperm suits.distinct)
    (recurs_bindType well ready (suits.nth 1) .none) ?_
  intro _ after left ready _ _ _ _
  have behind := suits.sublist ((List.sublist_append_right ..).trans both)
  refine recurs_visits ready behind.distinct fun item member later left _ _ ready => ?_
  exact (recurs_bindTypedefName ready).widen
    (declare_subset_usesOf (mem_preorder_of_isA (List.mem_filter.mp member).2))

/-! ## Templates -/

theorem recurs_bindTemplateParameter (ready : Ready (plan.setting ∅) surroundings table pending)
    {scope : ScopeId} {parameter : Node} :
    Recurs plan (usesOf parameter.preorder) surroundings table pending known
      (bindTemplateParameter scope parameter) (bindTemplateParameter scope parameter) := by
  unfold bindTemplateParameter
  dsimp only
  split
  · next isType =>
    split
    · exact .widen (recurs_declareQuietly ready nofun fun _ _ => nofun)
        (declare_subset_usesOf (mem_preorder_of_isA isType))
    · exact .pure ready trivial fun _ _ _ => trivial
  · split
    · next isParameter =>
      split
      · exact .pure ready trivial fun _ _ _ => trivial
      · exact .answering ready fun span => .widen (recurs_declareQuietly ready nofun fun _ _ => nofun)
          (declare_subset_usesOf (mem_preorder_of_isA isParameter))
    · exact .pure ready trivial fun _ _ _ => trivial

/-- Steps with a header pending, which is gone afterwards. -/
theorem recurs_withHeader {uses : Set Use} {step again : Bind Unit} {scope : ScopeId}
    (isHeader : IsHeader table scope)
    (recurs : Recurs plan uses surroundings table (some scope) known step again) :
    Recurs plan uses surroundings table none known
      (do
        modify fun state => { state with header := some scope }
        step
        modify fun state => { state with header := none })
      (do
        modify fun state => { state with header := some scope }
        again
        modify fun state => { state with header := none }) where
  keeps := keeps_withHeader recurs.keeps
  echo := by
    intro early after _ sameTable _ runs unmet late later _ ready _ knows follows runsAgain
    rcases ok_of_withHeader runs with ⟨done, ran, rfl⟩
    rcases ok_of_withHeader runsAgain with ⟨doneAgain, ranAgain, rfl⟩
    have begins : ({ early with header := some scope } : State).table = table := sameTable
    have grows := (recurs.keeps.ends begins rfl ran).2.1.grows.trans follows.grows
    have awaiting : Ready (plan.setting ∅) surroundings
        ({ late with header := some scope } : State).table (some scope) :=
      ready.await (isHeader.grows grows) nofun nofun
    rcases recurs.echo begins rfl ran unmet awaiting rfl knows follows ranAgain with
      ⟨there, _, echoed, _⟩
    exact ⟨there.formed.taken.again there.current, rfl,
      ⟨echoed.evolves, echoed.annotated, echoed.log, echoed.reported⟩, trivial⟩

theorem recurs_bindTemplate (well : VisitsTwice plan visit)
    (ready : Ready (plan.setting ∅) surroundings table pending) {node : Node}
    (suits : SuitsTwice plan node.preorder) (isTemplate : node.isA .templateDecl = true) :
    Recurs plan (usesOf node.preorder) surroundings table pending (fun _ => True)
      (bindTemplate visit node) (bindTemplate visit node) := by
  have inside : (Tree.parts node.third.present ++ (node.nth 4).preorder).Sublist
      (Tree.parts node.elements) := Tree.present_and_part_sublist node (by decide : 2 < 4)
  have splits := (suits.own isTemplate inside).narrow (Splits.declareNote node).inBack
  have inner := suits.sublist (inside.trans (Tree.parts_elements_sublist node))
  have taken := ready.taken
  unfold bindTemplate
  dsimp only
  split
  · exact .behind ready (reads_malformed _ _ _) (reads_malformed _ _ _)
      fun _ impossible => impossible.elim
  refine .bindSame (.none _) (echoes_takeHeader ready) ?_
  rintro header after left ready _ _ ⟨rfl, rfl, rfl⟩
  refine .currently ready ?_
  rcases taken.outside ready.formed ready.current with ⟨there, _⟩
  refine .entering splits rfl (echoes_scopeFor ready there ?_ ?_) ?_
  · exact ⟨rfl, rfl, fun _ member => nomatch member⟩
  · rw [suits.self isTemplate]
    rfl
  rintro scope after left ready _ _ ⟨rfl, noted⟩
  have has : after.HasShape scope (.header node.id) :=
    noted.hasShape (suits.self isTemplate) fun _ bears => bears
  have parameters := inner.sublist (List.sublist_append_left ..)
  refine .bind (.ofParts (.refl _) inner.distinct) (recurs_visits ready parameters.distinct
    fun _ _ _ _ _ _ ready => recurs_bindTemplateParameter ready) ?_
  intro _ later left ready grows next _ _
  obtain rfl : left = none := next.elim id id
  have isHeader : IsHeader later scope := ⟨node.id, grows.hasShape has⟩
  exact recurs_withHeader isHeader (well (node.nth 4) (ready.await isHeader nofun nofun)
    (inner.sublist (List.sublist_append_right ..)))

/-! ## Using -/

theorem recurs_bindUsingDirective (ready : Ready (plan.setting ∅) surroundings table pending)
    (node : Node) : Recurs plan (usesOf node.preorder) surroundings table pending (fun _ => True)
      (bindUsingDirective node) (bindUsingDirective node) := by
  refine (Echoes.widen (.idle (keeps_bindUsingDirective ready node) ?_) (Set.empty_subset _)).recurs
  exact fun _ ready _ _ => keeps_bindUsingDirective ready node

/-- What is made visible may be more in the second pass. -/
theorem recurs_bindUsingDeclaration (ready : Ready (plan.setting ∅) surroundings table pending)
    {node : Node} (suits : SuitsTwice plan node.preorder)
    (is : node.isA .usingDeclaration = true) :
    Recurs plan (usesOf node.preorder) surroundings table pending (fun _ => True)
      (bindUsingDeclaration node) (bindUsingDeclaration node) := by
  have aliases : plan.aliasing := suits.aliasing node (mem_preorder_of_isA is) is
  refine (Echoes.widen (.idle (keeps_bindUsingDeclaration ready node aliases) ?_)
    (Set.empty_subset _)).recurs
  exact fun _ ready _ _ => keeps_bindUsingDeclaration ready node aliases

/-! ## Blocks and expressions -/

theorem recurs_bindBlock (well : VisitsTwice plan visit)
    (ready : Ready (plan.setting ∅) surroundings table pending) {node : Node}
    (suits : SuitsTwice plan node.preorder)
    (is : node.isA .block = true ∨ node.isA .forStatement = true) :
    Recurs plan (usesOf node.preorder) surroundings table pending (fun _ => True)
      (bindBlock visit node) (bindBlock visit node) := by
  have inside : (Tree.parts node.present).Sublist (Tree.parts node.elements) :=
    Tree.parts_sublist List.filter_sublist
  have splits : Splits (usesOf node.preorder) {.note node.id} (usesOf (Tree.parts node.present)) :=
    is.elim (fun isBlock => (suits.own isBlock inside).narrow (Splits.declareNote node).inBack)
      fun isFor => (suits.own isFor inside).narrow (Splits.declareNote node).inBack
  have bears : (plan.content node.id).Bears node.id .block := by
    rcases is with isBlock | isFor
    · rw [suits.self isBlock]
      exact .inr rfl
    · rw [suits.self isFor]
      rfl
  refine .currently ready ?_
  refine .entering splits rfl (echoes_scopeFor ready ready.current.hasScope ?_ bears) ?_
  · exact ⟨rfl, rfl, fun _ member => nomatch member⟩
  rintro scope after left ready _ _ ⟨rfl, shape, has, bears⟩
  have isOpen : after.Open scope := by
    refine has.isOpen ?_
    have bears : (plan.content node.id).Bears node.id shape := bears
    rcases is with isBlock | isFor
    · rw [suits.self isBlock] at bears
      rcases bears with rfl | rfl <;> rfl
    · rw [suits.self isFor] at bears
      cases bears
      rfl
  exact .inScope ready isOpen (recurs_visitElements well (ready.elsewhere isOpen) suits.present)

theorem recurs_bindFor (well : VisitsTwice plan visit)
    (ready : Ready (plan.setting ∅) surroundings table pending) {node : Node}
    (suits : SuitsTwice plan node.preorder) (is : node.isA .forStatement = true) :
    Recurs plan (usesOf node.preorder) surroundings table pending (fun _ => True)
      (bindFor visit node) (bindFor visit node) := by
  unfold bindFor
  split
  · exact .looks ready (reads_malformed _ _ _).looks (reads_malformed _ _ _).looks
  · exact recurs_bindBlock well ready suits (.inr is)

theorem recurs_bindMemberAccess (well : VisitsTwice plan visit)
    (ready : Ready (plan.setting ∅) surroundings table pending) {node : Node}
    (suits : SuitsTwice plan node.preorder) :
    Recurs plan (usesOf node.preorder) surroundings table pending (fun _ => True)
      (bindMemberAccess visit node) (bindMemberAccess visit node) := by
  have object : Recurs plan (usesOf node.preorder) surroundings table pending (fun _ => True)
      (visit node.first) (visit node.first) :=
    .widen (well node.first ready (suits.nth 0))
      (usesOf_mono ((Tree.preorder_nth_sublist node 0).trans
        (Tree.parts_elements_sublist node)).subset)
  have nothing : Recurs plan (usesOf node.preorder) surroundings table pending (fun _ => True)
      (pure ()) (pure ()) := .pure ready trivial fun _ _ _ => trivial
  refine .behindBoth ready reads_read reads_read fun here other same sameAgain => ?_
  obtain rfl : other = here := sameAgain.trans same.symm
  dsimp only
  split <;> split
  · exact .answering ready fun _ =>
      .behindAny ready (looks_report _ _ _) (looks_report _ _ _) fun _ _ => object
  · exact .answering ready fun _ =>
      .behindAny ready (looks_report _ _ _) (looks_report _ _ _) fun _ _ => nothing
  · exact object
  · exact nothing

/-! ## Nodes and trees -/

theorem visitsTwice_bindNode (well : VisitsTwice plan visit) : VisitsTwice plan (bindNode visit) := by
  intro surroundings table pending node ready suits
  have elements : Recurs plan (usesOf node.preorder) surroundings table pending (fun _ => True)
      (visitElements visit node) (visitElements visit node) :=
    .widen (recurs_visitElements well ready suits.present)
      (usesOf_mono (Tree.parts_present_sublist node).subset)
  unfold bindNode
  split
  · exact .pure ready trivial fun _ _ _ => trivial
  · next construct is =>
    have isA : node.isA construct = true := beq_of_eq is
    cases construct with
    | namespaceSpec => exact recurs_bindNamespace well ready suits isA
    | classSpec => exact recurs_bindClass well ready suits isA .none
    | enumSpec => exact recurs_bindEnum ready suits isA
    | declaration => exact recurs_bindDeclaration well ready suits isA
    | typedefDecl => exact recurs_bindTypedef well ready suits
    | templateDecl => exact recurs_bindTemplate well ready suits isA
    | usingDirective => exact recurs_bindUsingDirective ready node
    | usingDeclaration => exact recurs_bindUsingDeclaration ready suits isA
    | block => exact recurs_bindBlock well ready suits (.inl isA)
    | forStatement => exact recurs_bindFor well ready suits isA
    | dotMemberExpr | arrowMemberExpr => exact recurs_bindMemberAccess well ready suits
    | _ => exact elements

theorem visitsTwice_bindWithin (size : Nat) : VisitsTwice plan (bindWithin size) := by
  induction size with
  | zero =>
    intro surroundings table pending node ready suits
    constructor
    · rintro state rfl rfl
      exact ⟨state.header, (ready.allowing _).formed⟩
    · exact fun _ _ ran => nomatch ran
  | succ size ih => exact visitsTwice_bindNode ih

theorem recurs_bindTree (ready : Ready (plan.setting ∅) surroundings table pending) {tree : Node}
    (suits : SuitsTwice plan tree.preorder) :
    Recurs plan (usesOf tree.preorder) surroundings table pending (fun _ => True)
      (bindTree tree) (bindTree tree) :=
  .widen (recurs_visitElements (visitsTwice_bindWithin tree.size) ready suits.present)
    (usesOf_mono (Tree.parts_present_sublist tree).subset)

end Binding
end CppNames
