import CppNames.Binding.Declaration
import CppNames.Proofs.Binding.KeepType

namespace CppNames
namespace Binding

/-!
# Declarations and templates keep tables in form

A template header is moved at most once, when a function under it turns out to be defined
outside its class.  Until then it is held: the words of the return type are bound, and the
function is declared, without anything being entered into the header.
-/

open Table

variable {setting : Setting} {surroundings : Surroundings} {table : Table}
  {pending : Option ScopeId} {visit : Visit}

/-! ## Functions -/

theorem keeps_prototypeScope (ready : Ready setting surroundings table pending)
    {declarator : Node} {outer : ScopeId} (is : setting.content declarator.id = .declarator)
    (noted : declarator.id ∈ setting.noted) (inside : table.HasScope outer)
    (outside : Outside setting pending outer) :
    Keeps setting surroundings table pending (prototypeScope declarator outer)
      fun scope after left => pending = left ∧ after.HasShape scope .prototype := by
  refine .bind (keeps_scopeFor ready inside ?_ ?_ noted outside ?_) ?_
  · exact ⟨rfl, rfl, fun _ member => nomatch member⟩
  · rw [is]
    rfl
  · rintro (impossible | impossible) <;> cases impossible
  rintro scope after left ready _ _ ⟨rfl, has, _⟩
  exact .annotating ready noted (.pure ready ⟨rfl, has.hasShape is fun _ bears => bears⟩)

theorem keeps_bindParameter (well : VisitsInForm visit)
    (ready : Ready setting surroundings table pending) {scope : ScopeId} {parameter : Node}
    (suits : Suits setting table parameter.preorder)
    (isParameter : parameter.isA .parameterDeclaration = true) :
    Keeps setting surroundings table pending (bindParameter visit scope parameter)
      fun _ _ _ => True := by
  rcases suits.self isParameter with ⟨_, _, declaring⟩
  unfold bindParameter
  dsimp only
  split
  · refine .behind ready (looks_answer _) fun span _ => ?_
    refine .plainly suits (keeps_declareQuietly ready.plain declaring nofun) ?_
    intro _ after left ready suits _ _
    exact keeps_visitElements well ready (suits.nth 2)
  · exact keeps_visitElements well ready (suits.nth 2)

theorem keeps_bindParameters (well : VisitsInForm visit)
    (ready : Ready setting surroundings table pending) {scope : ScopeId} {parameters : Node}
    (suits : Suits setting.inward table parameters.preorder) (isOpen : table.Open scope) :
    Keeps setting surroundings table pending (bindParameters visit parameters scope)
      fun _ _ _ => True := by
  have declared : (Tree.parts (parameters.present.filter (·.isA .parameterDeclaration))).Sublist
      parameters.preorder :=
    (Tree.parts_sublist List.filter_sublist).trans (Tree.parts_present_sublist parameters)
  refine .inward ready (keeps_visits (ready.inward isOpen) (suits.sublist declared) .none ?_)
  intro item member small later left _ _ _ ready suits _
  exact keeps_bindParameter well ready suits (List.mem_filter.mp member).2

theorem Suits.parameterList {declarator : Node} (suits : Suits setting table declarator.preorder)
    (isDeclarator : declarator.isA .declarator = true) :
    Suits setting.inward table declarator.parameterList.preorder := by
  have among := Tree.preorder_elementBehind_sublist declarator .openParen
  refine suits.inward (among.trans (Tree.parts_elements_sublist declarator)) fun part member => ?_
  refine suits.inner declarator (mem_preorder_of_isA isDeclarator) part ?_
  rw [Tree.innerParts_of_isA (.inr (.inr isDeclarator))]
  exact among.subset member

theorem body_functionKind (parameters : Node) (isTemplate defined : Bool) :
    (functionKind parameters isTemplate defined).family.body? = some .functionBody ∧
      ∀ target, functionKind parameters isTemplate defined ≠ .typedefName target := by
  cases isTemplate <;> exact ⟨rfl, nofun⟩

theorem signature?_functionKind (parameters : Node) (isTemplate defined : Bool) :
    (functionKind parameters isTemplate defined).signature? = some (signatureOf parameters) := by
  cases isTemplate <;> rfl

theorem keeps_bindPrototype (well : VisitsInForm visit)
    (ready : Ready setting surroundings table pending) {declarator : Node} {name type : Encoding}
    {span : Option Span} {storage : Storage} {header : Option ScopeId}
    (suits : Suits setting table declarator.preorder)
    (isDeclarator : declarator.isA .declarator = true) (taken : Taken setting table pending header) :
    Keeps setting surroundings table pending
      (bindPrototype visit declarator name type span storage header) fun _ _ _ => True := by
  rcases suits.self isDeclarator with ⟨is, noted, declaring⟩
  have plain : setting.content declarator.id ≠ .templateDecl := by
    rw [is]
    decide
  unfold bindPrototype
  split
  · exact .pure ready trivial
  refine .plainly suits (keeps_declareNamed ready.plain declaring (body_functionKind _ _ _).2) ?_
  rintro ⟨id, scope⟩ after left ready suits grows ⟨rfl, _, isOpen⟩
  have taken := taken.later grows rfl rfl (.inr rfl)
  rcases taken.outside ready.formed isOpen with ⟨inside, outside⟩
  refine .plainly suits (keeps_prototypeScope ready.plain is ⟨noted, plain⟩ inside outside) ?_
  rintro prototype later left ready suits _ ⟨rfl, has⟩
  exact keeps_bindParameters well ready (suits.parameterList isDeclarator) (has.isOpen rfl)

/-- The initializers of a constructor, where a function definition has some. -/
def memberInitializers (node : Node) : Node :=
  if (node.nth 3).isA .block then .nil else node.nth 3

theorem memberInitializers_eq_nth {node : Node} (others : (!(node.nth 3).isA .block) = true) :
    memberInitializers node = node.nth 3 :=
  if_neg (by simpa using others)

theorem statements_subset_innerParts {node : Node} (defined : node.definesFunction = true) :
    (memberInitializers node).preorder ++ node.last.preorder ⊆ node.innerParts := by
  rw [Tree.innerParts_of_definesFunction defined]
  intro part member
  refine (List.mem_append.mp member).elim (fun early => ?_) (List.mem_append_right _)
  unfold memberInitializers at early
  split at early
  · exact absurd early List.not_mem_nil
  · exact List.mem_append_left _ early

/-- A function definition whose parts suit a setting. -/
structure DefinesIn (setting : Setting) (node declarator body : Node) : Prop where
  isDeclaration : setting.content node.id = .declaration
  isDeclarator : setting.content declarator.id = .declarator
  isBlock : setting.content body.id = .block
  noted : node.id ∈ setting.noted ∧ declarator.id ∈ setting.noted ∧ body.id ∈ setting.noted
  declares : declarator.isA .declarator = true
  inner : ∀ part ∈ (memberInitializers node).preorder ++ body.preorder, part.id ∈ setting.inner

theorem DefinesIn.plain {node declarator body : Node}
    (defines : DefinesIn setting node declarator body) :
    DefinesIn setting.plain node declarator body where
  isDeclaration := defines.isDeclaration
  isDeclarator := defines.isDeclarator
  isBlock := defines.isBlock
  noted := by
    rcases defines.noted with ⟨first, second, third⟩
    refine ⟨⟨first, ?_⟩, ⟨second, ?_⟩, ⟨third, ?_⟩⟩
    · rw [defines.isDeclaration]
      decide
    · rw [defines.isDeclarator]
      decide
    · rw [defines.isBlock]
      decide
  declares := defines.declares
  inner := defines.inner

theorem isFresh_functionBody {name : Encoding} {node : Tree.NodeId} {prototype : ScopeId}
    (has : table.HasShape prototype .prototype) :
    IsFresh table (.functionBody name node (some prototype) []) :=
  ⟨rfl, rfl, fun _ member => Option.mem_some.mp member ▸ has.hasScope⟩

theorem keeps_functionScope (ready : Ready setting surroundings table pending)
    {node declarator body : Node} {name : Encoding} {outer : ScopeId}
    (defines : DefinesIn setting node declarator body) (inside : table.HasScope outer)
    (outside : Outside setting pending outer) :
    Keeps setting surroundings table pending (functionScope node declarator body name outer)
      fun scopes after left => pending = left ∧ after.HasShape scopes.1 .prototype ∧
        after.HasShape scopes.2 .functionBody := by
  rcases defines with ⟨isDeclaration, isDeclarator, isBlock, noted, _, _⟩
  refine .bind (keeps_prototypeScope ready isDeclarator noted.2.1 inside outside) ?_
  rintro prototype after left ready evolves _ ⟨rfl, hasPrototype⟩
  refine .behind ready (looks_answer _) fun last _ => .behind ready (looks_answer _) fun key _ => ?_
  refine .bind (keeps_scopeFor ready (evolves.grows.hasScope inside)
    (isFresh_functionBody hasPrototype) ?_ noted.1 outside ?_) ?_
  · rw [isDeclaration]
    rfl
  · rintro (impossible | impossible) <;> cases impossible
  rintro scope later left ready evolves _ ⟨rfl, hasNoted, _⟩
  have has : later.HasShape scope .functionBody :=
    hasNoted.hasShape isDeclaration fun _ bears => bears
  refine .annotating ready noted.1 (.annotating ready noted.2.2 ?_)
  have bears : (setting.content body.id).Bears body.id .functionBody := by
    rw [isBlock]
    exact .inl rfl
  refine .bind (keeps_change ready (ready.formed.setNodeScope has bears (.inl noted.2.2))) ?_
  rintro _ last left ready further _ ⟨rfl, rfl⟩
  exact .pure ready
    ⟨rfl, (evolves.trans further).grows.hasShape hasPrototype, further.grows.hasShape has⟩

theorem keeps_bindFunctionBody (well : VisitsInForm visit)
    (ready : Ready setting surroundings table pending) {node body : Node}
    (suits : Suits setting table ((memberInitializers node).preorder ++ body.preorder)) :
    Keeps setting surroundings table pending (bindFunctionBody visit node body)
      fun _ _ _ => True := by
  have elements : Suits setting table body.preorder →
      Keeps setting surroundings table pending (visitElements visit body) fun _ _ _ => True :=
    fun suits => keeps_visitElements well ready suits
  unfold bindFunctionBody
  dsimp only
  split
  · next there =>
    rw [memberInitializers_eq_nth (Bool.and_eq_true_iff.mp there).2] at suits
    refine .inFront suits (well (node.nth 3) (ready.only _) suits.front) ?_
    intro _ after left ready suits _ _ _
    exact keeps_visitElements well ready suits
  · exact elements (suits.sublist (List.sublist_append_right ..))

/-- The parts of a function definition behind the words of its type. -/
def definedParts (node declarator body : Node) : List Node :=
  declarator.preorder ++ ((memberInitializers node).preorder ++ body.preorder)

theorem keeps_parametersAndBody (well : VisitsInForm visit)
    (ready : Ready setting surroundings table none) {node declarator body : Node}
    (suits : Suits setting table (definedParts node declarator body))
    (defines : DefinesIn setting node declarator body) {prototype scope : ScopeId}
    (hasPrototype : table.HasShape prototype .prototype)
    (has : table.HasShape scope .functionBody) :
    Keeps setting surroundings table none
      (do
        bindParameters visit declarator.parameterList prototype
        inScope scope (bindFunctionBody visit node body))
      fun _ _ _ => True := by
  refine .inFront suits (keeps_bindParameters well (ready.only _)
    (suits.front.parameterList defines.declares) (hasPrototype.isOpen rfl)) ?_
  intro _ after left ready suits grows _ _
  have isOpen := (grows.hasShape has).isOpen rfl
  exact .inward ready
    (keeps_bindFunctionBody well (ready.inward isOpen) (suits.inward (.refl _) defines.inner))

/-- What is left of a function definition once its header is where it belongs. -/
theorem keeps_definedFunction (well : VisitsInForm visit)
    (ready : Ready setting surroundings table none) {node declarator body : Node}
    {name : Encoding} {header : Option ScopeId} {symbol : Option SymbolId} {declaring : ScopeId}
    (suits : Suits setting table (definedParts node declarator body))
    (defines : DefinesIn setting node declarator body) (taken : Taken setting table none header)
    (isOpen : table.Open declaring) (answers : Answers (some .functionBody) table symbol) :
    Keeps setting surroundings table none
      (do
        let (prototype, scope) ←
          functionScope node declarator body name (header.getD declaring)
        defineScope symbol scope
        bindParameters visit declarator.parameterList prototype
        inScope scope (bindFunctionBody visit node body))
      fun _ _ _ => True := by
  rcases taken.outside ready.formed isOpen with ⟨inside, outside⟩
  refine .plainly suits (keeps_functionScope ready.plain defines.plain inside outside) ?_
  rintro ⟨prototype, scope⟩ after left ready suits grows ⟨rfl, hasPrototype, has⟩
  refine .plainly suits (keeps_defineScope ready.plain (answers.grows grows) has nofun) ?_
  rintro _ later left ready suits grows rfl
  exact keeps_parametersAndBody well ready suits defines (grows.hasShape hasPrototype)
    (grows.hasShape has)

/-- Moves a header into the scope that the qualifier of a defined function denotes. -/
def moveHeader (name : Encoding) (header : Option ScopeId) (declaring : ScopeId) : Bind Unit :=
  match header with
  | some scope =>
    if name.isQualified then do
      let moved ← ask (·.reparent scope declaring)
      change fun _ => moved
    else pure ()
  | none => pure ()

/-- In the first pass, a header is moved before there are scopes inside it. -/
theorem keeps_moveHeader (ready : Ready setting surroundings table pending) {name : Encoding}
    {header : Option ScopeId} {declaring : ScopeId}
    (isHeader : ∀ scope, header = some scope → IsHeader table scope)
    (childless : ∀ scope, header = some scope → setting.first = true → Childless table scope)
    (loose : ∀ scope, header = some scope → setting.first = true →
      scope ∉ setting.settled ∧ pending ≠ some scope)
    (isOpen : table.Open declaring) :
    Keeps setting surroundings table pending (moveHeader name header declaring) fun _ _ left =>
      pending = left := by
  cases header with
  | none => exact .pure ready rfl
  | some scope =>
    unfold moveHeader
    dsimp only
    split
    · refine .behind ready (reads_ask _) fun moved done => ?_
      exact (keeps_change ready (ready.formed.reparent isOpen (isHeader scope rfl)
        (childless scope rfl) (loose scope rfl) done)).weaken fun _ _ _ holds => holds.2
    · exact .pure ready rfl

theorem bindDefinition_eq (visit : Visit) (node declarator body : Node) (name : Encoding)
    (header : Option ScopeId) :
    bindDefinition visit node declarator body name header = (do
      let span ← answer declarator.declaredPlace
      let (symbol, declaring) ← declareNamed name
        (functionKind declarator.parameterList header.isSome true) (declarator.type?.getD .empty)
        declarator.id span
      moveHeader name header declaring
      let (prototype, scope) ← functionScope node declarator body name (header.getD declaring)
      defineScope symbol scope
      bindParameters visit declarator.parameterList prototype
      inScope scope (bindFunctionBody visit node body)) := by
  unfold bindDefinition
  dsimp only
  congr 1
  funext span
  congr 1
  funext named
  rcases named with ⟨symbol, declaring⟩
  cases header with
  | none =>
    simp only [moveHeader, pure_bind]
    cases symbol <;> simp only [defineScope, pure_bind]
  | some scope =>
    simp only [moveHeader]
    split
    · cases symbol <;> simp only [defineScope, pure_bind, bind_assoc]
    · cases symbol <;> simp only [defineScope, pure_bind]

/-- The definition of a function under a header that is held, so that it may be moved. -/
theorem keeps_bindDefinition (well : VisitsInForm visit) {node declarator body : Node}
    {name : Encoding} {header : Option ScopeId}
    (held : Ready (setting.hold header) surroundings table none)
    (suits : Suits setting table (definedParts node declarator body))
    (defines : DefinesIn setting node declarator body)
    (declaring : declarator.id ∈ setting.declaring) (taken : Taken setting table none header)
    (loose : ∀ scope, header = some scope → setting.first = true → scope ∉ setting.settled) :
    Keeps setting surroundings table none (bindDefinition visit node declarator body name header)
      fun _ _ _ => True := by
  have kinds := body_functionKind declarator.parameterList header.isSome true
  have narrows : Narrows (setting.plain.hold header) setting :=
    (narrows_hold setting.plain header).trans (narrows_plain setting)
  rw [bindDefinition_eq]
  refine .behind (held.widen (narrows_hold setting header)) (looks_answer _) fun span _ => ?_
  refine .narrowly narrows (keeps_declareNamed held.plain declaring kinds.2) ?_
  rintro ⟨symbol, target⟩ after left still ready evolves _ ⟨rfl, answers, isOpen⟩
  rw [kinds.1] at answers
  have suits := suits.plainly (evolves.widen (narrows_hold setting.plain header))
  have taken : Taken setting after none header := taken.later evolves.grows rfl rfl (.inr rfl)
  refine .plainly suits (keeps_moveHeader ready.plain (fun scope same => (taken scope same).2.1)
    (fun scope same => ?_) (fun scope same first => ⟨loose scope same first, nofun⟩) isOpen) ?_
  · subst same
    exact still.childless
  rintro _ later left ready suits grows rfl
  exact keeps_definedFunction well ready suits defines (taken.later grows rfl rfl (.inr rfl))
    (grows.isOpen isOpen) (answers.grows grows)

/-- A function whose body is no block is not bound. -/
theorem stops_bindFunction {node : Node} {header : Option ScopeId}
    (unbraced : node.last.isA .block ≠ true) :
    Reads (bindFunction visit node header) fun _ _ _ => False := by
  unfold bindFunction
  dsimp only
  split
  · exact reads_malformed _ _ _
  · rw [if_pos (by simpa using unbraced)]
    exact reads_malformed _ _ _

theorem keeps_bindFunction (well : VisitsInForm visit) {node : Node} {header : Option ScopeId}
    (held : Ready (setting.hold header) surroundings table none)
    (suits : Suits setting table (definedParts node node.third node.last))
    (defines : DefinesIn setting node node.third node.last)
    (declaring : node.third.id ∈ setting.declaring) (taken : Taken setting table none header)
    (loose : ∀ scope, header = some scope → setting.first = true → scope ∉ setting.settled) :
    Keeps setting surroundings table none (bindFunction visit node header) fun _ _ _ => True := by
  have ready := held.widen (narrows_hold setting header)
  unfold bindFunction
  dsimp only
  split
  · exact .looks ready (reads_malformed _ _ _).looks fun _ => trivial
  · split
    · exact .looks ready (reads_malformed _ _ _).looks fun _ => trivial
    · split
      · exact .looks ready (reads_malformed _ _ _).looks fun _ => trivial
      · exact keeps_bindDefinition well held suits defines declaring taken loose

/-! ## Variables -/

theorem reads_variableKind (type : Encoding) (initializer : Node) (storage : Storage) :
    Reads (variableKind type initializer storage) fun _ _ kind =>
      kind.signature? = none ∧ ∀ target, kind ≠ .typedefName target := by
  have constant : Looks (constantValue type initializer) := by
    unfold constantValue
    split
    · exact .after reads_site.looks fun _ => .after looks_read fun _ => looks_answer _
    · exact looks_pure _
  refine .after constant fun value => ?_
  cases value with
  | some value => exact .pure fun _ _ => ⟨rfl, nofun⟩
  | none =>
    exact .after reads_current.looks fun _ => .after (looks_ask _) fun _ =>
      .pure fun _ _ => ⟨rfl, nofun⟩

theorem keeps_bindDeclarator (well : VisitsInForm visit)
    (ready : Ready setting surroundings table pending) {declarator : Node} {storage : Storage}
    {header : Option ScopeId} (suits : Suits setting table declarator.preorder)
    (isDeclarator : declarator.isA .declarator = true) (taken : Taken setting table pending header) :
    Keeps setting surroundings table pending (bindDeclarator visit storage header declarator)
      fun _ _ _ => True := by
  rcases suits.self isDeclarator with ⟨_, _, declaring⟩
  unfold bindDeclarator
  split
  · exact keeps_visitElements well ready suits
  · next name _ =>
    refine .behind ready (looks_answer _) fun span _ => ?_
    split
    · exact keeps_bindPrototype well ready suits isDeclarator taken
    · refine .behind ready (reads_variableKind _ _ _) fun kind other => ?_
      have declares : Keeps setting.plain surroundings table pending
          (discard (declareNamed name kind (declarator.type?.getD .empty) declarator.id span))
          fun _ _ left => pending = left :=
        .discard (keeps_declareNamed ready.plain declaring other.2) fun _ _ _ done => done.1
      refine .plainly suits declares ?_
      rintro _ after left ready suits _ rfl
      exact keeps_visitElements well ready suits

/-! ## Declarations -/

/-- The header that is pending is the next declaration's. -/
theorem Ready.taken (ready : Ready setting surroundings table pending) :
    Taken setting table none pending := by
  rintro scope same
  refine ⟨rfl, ready.formed.headed scope same, fun first member => ?_⟩
  exact (ready.formed.budding first).apart scope member same

theorem Ready.holdTaken (ready : Ready setting surroundings table pending) :
    Ready (setting.hold pending) surroundings table none :=
  Ready.hold (ready.grows ready.formed.taken (.refl table)) ready.formed.headed
    fun scope same first => (ready.formed.budding first).childless scope (.inr same)

theorem Ready.settleTaken (ready : Ready setting surroundings table pending) :
    Ready (setting.settle pending) surroundings table none :=
  Ready.settle (ready.grows ready.formed.taken (.refl table)) fun scope same first =>
    (ready.formed.housed first).headers scope (.inr same)

/-- A declaration that defines a function. -/
theorem keeps_definition (well : VisitsInForm visit) {node : Node} {header : Option ScopeId}
    (held : Ready (setting.hold header) surroundings table none)
    (suits : Suits setting table node.preorder) (isDeclaration : node.isA .declaration = true)
    (isDeclarator : node.third.isA .declarator = true) (taken : Taken setting table none header)
    (loose : ∀ scope, header = some scope → setting.first = true → scope ∉ setting.settled) :
    Keeps setting surroundings table none
      (do
        bindType visit node.second .elaborated none
        bindFunction visit node header)
      fun _ _ _ => True := by
  rcases suits.self isDeclaration with ⟨spells, noted, _⟩
  by_cases isBlock : node.last.isA .block = true
  · have sublist : (node.second.preorder ++ definedParts node node.third node.last).Sublist
        node.preorder := by
      have parts := (Tree.definition_parts_sublist isDeclarator isBlock).trans
        (Tree.parts_elements_sublist node)
      unfold Tree.parts at parts
      simp only [List.flatMap_cons, List.flatMap_nil, List.append_nil] at parts
      exact parts
    have parts := suits.sublist sublist
    rcases (suits.nth 2).self isDeclarator with ⟨spellsDeclarator, notedDeclarator, declaring⟩
    have memberBody : node.last ∈ node.second.preorder ++ definedParts node node.third node.last :=
      List.mem_append_right _ (List.mem_append_right _ (List.mem_append_right _
        (mem_preorder_of_isA isBlock)))
    rcases parts.of_isA isBlock memberBody with ⟨spellsBody, notedBody, _⟩
    have defined : node.definesFunction = true := by
      simp only [Tree.definesFunction, isDeclaration, isDeclarator, isBlock, Bool.and_self]
    have inner : ∀ part ∈ (memberInitializers node).preorder ++ node.last.preorder,
        part.id ∈ setting.inner := fun part member =>
      suits.inner node (mem_preorder_of_isA isDeclaration) part
        (statements_subset_innerParts defined member)
    have defines : DefinesIn setting node node.third node.last :=
      ⟨spells, spellsDeclarator, spellsBody, ⟨noted, notedDeclarator, notedBody⟩, isDeclarator, inner⟩
    have narrows := (parts.hold header).narrows
    refine .narrowly (narrows.trans (narrows_hold setting header))
      (keeps_bindType well (held.only _) (parts.front.hold header) .none .none) ?_
    intro _ after left still ready evolves next _
    obtain rfl : left = none := next.elim id id
    have suits := parts.behind (evolves.widen (narrows_hold (setting.only _) header))
    exact keeps_bindFunction well (still.widen narrows) suits defines declaring
      (taken.later evolves.grows rfl rfl (.inr rfl)) loose
  · refine .bind (keeps_bindType well (held.widen (narrows_hold setting header)) (suits.nth 1)
      .none .none) ?_
    intro _ after left ready _ _ _
    exact .looks ready (stops_bindFunction isBlock).looks fun _ => trivial

/-- The words of a type, and the declarators behind them. -/
theorem wordsAndDeclarators_sublist (node : Node) :
    (node.second.preorder ++ Tree.parts (node.third.present.filter (·.isA .declarator))).Sublist
      node.preorder := by
  have parts := (Tree.pair_parts_sublist node (by decide : 1 < 2)).trans
    (Tree.parts_elements_sublist node)
  rw [Tree.parts_cons, Tree.parts_cons] at parts
  refine .trans (.append_left (.trans ?_ (List.sublist_append_left ..)) _) parts
  exact (Tree.parts_sublist List.filter_sublist).trans (Tree.parts_present_sublist node.third)

/-- A declaration that declares variables, function prototypes or types only. -/
theorem keeps_simpleDeclaration (well : VisitsInForm visit)
    (ready : Ready setting surroundings table pending) {node : Node} {storage : Storage}
    {use : ClassUse} {header inner : Option ScopeId} (suits : Suits setting table node.preorder)
    (taken : Taken setting table pending header) (takenInner : Taken setting table pending inner)
    (settles : Settles setting inner) :
    Keeps setting surroundings table pending
      (do
        bindType visit node.second use inner
        (node.third.present.filter (·.isA .declarator)).forM (bindDeclarator visit storage header))
      fun _ _ _ => True := by
  have parts := suits.sublist (wordsAndDeclarators_sublist node)
  refine .inFront parts (keeps_bindType well (ready.only _) parts.front
    (takenInner.later (.refl table) rfl rfl (.inr rfl)) settles) ?_
  intro _ after left ready suits grows next _
  refine keeps_visits ready suits (taken.later grows rfl rfl next) ?_
  intro item member small later left _ _ _ ready suits taken
  exact keeps_bindDeclarator well ready suits (List.mem_filter.mp member).2 taken

theorem keeps_bindDeclaration (well : VisitsInForm visit)
    (ready : Ready setting surroundings table pending) {node : Node}
    (suits : Suits setting table node.preorder) (isDeclaration : node.isA .declaration = true) :
    Keeps setting surroundings table pending (bindDeclaration visit node) fun _ _ _ => True := by
  have taken := ready.taken
  have held := ready.holdTaken
  have settled := ready.settleTaken
  have loose : ∀ scope, pending = some scope → setting.first = true → scope ∉ setting.settled :=
    fun scope same first member => (ready.formed.housed first).apart scope member same
  unfold bindDeclaration
  refine .bind (keeps_takeHeader ready) ?_
  rintro header after left ready _ _ ⟨rfl, rfl, rfl⟩
  dsimp only
  split
  · next isDeclarator =>
    exact keeps_definition well held suits isDeclaration isDeclarator taken loose
  · split
    · have stays : Settles (setting.settle header) header := fun _ same => .inl same
      exact (keeps_simpleDeclaration well settled (suits.settle header) taken taken stays).widen
        (narrows_settle setting header)
    · exact keeps_simpleDeclaration well ready suits taken .none .none

/-! ## Type definitions -/

theorem hasSymbol_of_first? {site : Site} {name : Encoding} {context : LookupContext}
    {id : SymbolId} (ran : site.first? name context = .ok (some id)) : site.table.HasSymbol id := by
  rcases Outcome.of_bind ran with ⟨found?, find, first⟩
  rcases Outcome.of_bind find with ⟨looked, look, same⟩
  cases same
  cases looked with
  | error error => cases first
  | ok found =>
    have head := Except.ok.inj first
    exact allThere_of_lookup look id (List.mem_of_head? head)

theorem reads_aliasedSymbol (type : Encoding) : Reads (aliasedSymbol type) fun _ table found =>
    ∀ id, found = some id → table.HasSymbol id := by
  unfold aliasedSymbol
  dsimp only
  split
  · refine reads_site.bind fun here => (reads_answer _).weaken ?_
    rintro surroundings table found ran rfl id rfl
    exact hasSymbol_of_first? ran
  · exact .pure fun _ _ _ => nofun

theorem keeps_bindTypedefName (ready : Ready setting surroundings table pending)
    {declarator : Node} (declaring : declarator.id ∈ setting.declaring) :
    Keeps setting surroundings table pending (bindTypedefName declarator) fun _ _ _ => True := by
  unfold bindTypedefName
  split
  · exact .pure ready trivial
  · dsimp only
    refine .behind ready reads_current fun scope _ => ?_
    refine .behind ready (reads_aliasedSymbol _) fun found there => ?_
    refine .behind ready (looks_answer _) fun span _ => ?_
    refine (keeps_declareQuietly ready declaring ?_).weaken fun _ _ _ _ => trivial
    rintro target same
    cases same
    exact there target rfl

theorem keeps_bindTypedef (well : VisitsInForm visit)
    (ready : Ready setting surroundings table pending) {node : Node}
    (suits : Suits setting table node.preorder) :
    Keeps setting surroundings table pending (bindTypedef visit node) fun _ _ _ => True := by
  refine .bind (keeps_bindType well ready (suits.nth 1) .none .none) ?_
  intro _ after left ready _ _ _
  refine keeps_forM ready trivial fun declarator member later left grows _ ready => ?_
  rcases List.mem_filter.mp member with ⟨among, isDeclarator⟩
  refine keeps_bindTypedefName ready (suits.declaring declarator ?_)
  have inThird := (Tree.preorder_sublist_of_mem among).trans
    (Tree.parts_present_sublist node.third)
  have inNode := (Tree.preorder_nth_sublist node 2).trans (Tree.parts_elements_sublist node)
  exact (inThird.trans inNode).subset (mem_preorder_of_isA isDeclarator)

/-! ## Templates -/

theorem keeps_bindTemplateParameter (ready : Ready setting surroundings table pending)
    {scope : ScopeId} {parameter : Node}
    (declaring : ∀ part ∈ parameter.preorder, part.id ∈ setting.declaring) :
    Keeps setting surroundings table pending (bindTemplateParameter scope parameter)
      fun _ _ _ => True := by
  have self : ∀ {construct}, parameter.isA construct = true → parameter.id ∈ setting.declaring :=
    fun is => declaring parameter (mem_preorder_of_isA is)
  unfold bindTemplateParameter
  dsimp only
  split
  · next isType =>
    split
    · exact .weaken (keeps_declareQuietly ready (self isType) nofun) fun _ _ _ _ => trivial
    · exact .pure ready trivial
  · split
    · next isParameter =>
      split
      · exact .pure ready trivial
      · refine .behind ready (looks_answer _) fun span _ => ?_
        exact .weaken (keeps_declareQuietly ready (self isParameter) nofun) fun _ _ _ _ => trivial
    · exact .pure ready trivial

/-- A step with a header pending, which is gone afterwards. -/
theorem keeps_withHeader {step : Bind Unit} {scope : ScopeId}
    (keeps : Keeps setting surroundings table (some scope) step fun _ _ _ => True) :
    Keeps setting surroundings table none
      (do
        modify fun state => { state with header := some scope }
        step
        modify fun state => { state with header := none })
      fun _ _ _ => True := by
  rintro state rfl _
  have ends := keeps { state with header := some scope } rfl rfl
  change Ends _ _ _ _ ((step >>= fun _ => modify fun state => { state with header := none })
    surroundings { state with header := some scope })
  cases result : step surroundings { state with header := some scope } with
  | error error after =>
    rw [result] at ends
    rw [Binds.bind_of_error result]
    exact ends
  | ok value after =>
    rw [result] at ends
    rw [Binds.bind_of_ok result]
    rcases ends with ⟨ready, evolves, _, ⟨annotations, log⟩, _⟩
    exact ⟨ready.grows ready.formed.taken (.refl _), evolves, .inl rfl, ⟨annotations, log⟩, trivial⟩

/-- The header of the next declaration may be moved while nothing lies inside it. -/
theorem Ready.await (ready : Ready setting surroundings table none) {scope : ScopeId}
    (isHeader : IsHeader table scope)
    (empty : setting.first = true → Childless table scope ∧ scope ∉ setting.held)
    (leads : setting.first = true → table.LeadsOut setting.inner scope ∧ scope ∉ setting.settled) :
    Ready setting surroundings table (some scope) where
  formed := by
    refine ⟨ready.formed.consistent, ready.formed.root, ready.formed.notes, ready.formed.older,
      ready.formed.headers, ?_, fun first => ?_, fun first => ?_⟩
    · rintro header same
      cases same
      exact isHeader
    · have budding := ready.formed.budding first
      rcases empty first with ⟨childless, other⟩
      refine ⟨budding.ranked, budding.isHeader, ?_, ?_⟩
      · rintro header (held | next)
        · exact budding.childless header (.inl held)
        · cases next
          exact childless
      · rintro header held next
        cases next
        exact other held
    · have housed := ready.formed.housed first
      rcases leads first with ⟨out, other⟩
      refine ⟨housed.members, ?_, ?_⟩
      · rintro header (settled | next)
        · exact housed.headers header (.inl settled)
        · cases next
          exact out
      · rintro header settled next
        cases next
        exact other settled
  current := ready.current
  outermost := ready.outermost

/-- A header that is entered in the header in front of it, if there is one, is housed. -/
theorem Ready.housesTaken (ready : Ready setting surroundings table pending) {node : Tree.NodeId}
    (inside : setting.inside → node ∈ setting.inner) :
    Houses setting table (pending.getD surroundings.current) node := by
  cases pending with
  | none => exact ready.houses inside
  | some header => exact fun first => .inl ((ready.formed.housed first).headers header (.inr rfl))

/-- Nothing is known of a scope that is not there. -/
theorem Ready.unknown (ready : Ready setting surroundings table pending) {scope : ScopeId}
    (absent : ¬ table.HasScope scope) (first : setting.first = true) :
    scope ∉ setting.held ∧ scope ∉ setting.settled := by
  refine ⟨fun member => absent ?_, fun member => absent ?_⟩
  · rcases (ready.formed.budding first).isHeader scope member with ⟨declaration, has⟩
    exact has.hasScope
  · exact ((ready.formed.housed first).headers scope (.inl member)).hasScope

/-- While the parameters of a template are declared, nothing is entered into the new header, and it
stays where it is. -/
theorem Ready.holdNew (ready : Ready setting surroundings table none) {scope : ScopeId}
    (isHeader : IsHeader table scope) (empty : setting.first = true → Childless table scope)
    (leads : setting.first = true → table.LeadsOut setting.inner scope) :
    Ready ((setting.hold (some scope)).settle (some scope)) surroundings table none := by
  refine (ready.hold ?_ ?_).settle ?_
  · rintro other same
    cases same
    exact isHeader
  · rintro other same first
    cases same
    exact empty first
  · rintro other same first
    cases same
    exact leads first

/-- Then the declaration of the template comes next. -/
theorem Ready.awaitNew {scope : ScopeId}
    (still : Ready ((setting.hold (some scope)).settle (some scope)) surroundings table none)
    (isHeader : IsHeader table scope)
    (new : setting.first = true → scope ∉ setting.held ∧ scope ∉ setting.settled) :
    Ready setting surroundings table (some scope) := by
  have ready := still.widen ((narrows_settle _ _).trans (narrows_hold setting (some scope)))
  refine ready.await isHeader (fun first => ⟨?_, (new first).1⟩) fun first => ⟨?_, (new first).2⟩
  · exact (still.widen (narrows_settle _ _)).childless first
  · exact (still.formed.housed first).headers scope (.inl (.inl rfl))

theorem keeps_bindTemplate (well : VisitsInForm visit)
    (ready : Ready setting surroundings table pending) {node : Node}
    (suits : Suits setting table node.preorder) (isTemplate : node.isA .templateDecl = true) :
    Keeps setting surroundings table pending (bindTemplate visit node) fun _ _ _ => True := by
  rcases suits.self isTemplate with ⟨spells, allowed, _⟩
  have isCell : node.isCell = true := by
    cases node with
    | cell => rfl
    | _ => cases isTemplate
  have inParts : node.preorder = [node] ++ Tree.parts node.elements := Tree.preorder_eq isCell
  have unmet : setting.first = true → table.scopeOfNode? node.id = none := fun first =>
    (suits.fresh first).2 node (mem_preorder_of_isA isTemplate) (eq_of_beq isTemplate)
  have parts := suits
  rw [inParts] at parts
  have taken := ready.taken
  have houses := ready.housesTaken (suits.insideSelf isTemplate)
  have begun := ready
  unfold bindTemplate
  dsimp only
  split
  · exact .behind ready (reads_malformed _ _ _) fun _ impossible => impossible.elim
  refine .bind (keeps_takeHeader ready) ?_
  rintro header after left ready _ _ ⟨rfl, rfl, rfl⟩
  refine .behind ready reads_current fun here same => ?_
  subst same
  rcases taken.outside ready.formed ready.current with ⟨inside, outside⟩
  refine .inFront parts (keeps_scopeFor (ready.only _) inside ?_ ?_ (List.mem_singleton_self _)
    outside fun _ => houses) ?_
  · exact ⟨rfl, rfl, fun _ member => nomatch member⟩
  · change Construct.Bears _ (setting.content node.id) _
    rw [spells]
    rfl
  rintro scope after left ready suits grows _ ⟨rfl, noted, new⟩
  have has : after.HasShape scope (.header node.id) := noted.hasShape spells fun _ bears => bears
  have isHeader : IsHeader after scope := ⟨node.id, has⟩
  have fresh := fun first => new (unmet first)
  refine .annotating ready allowed ?_
  have still := ready.plain.holdNew isHeader (fun first => (fresh first).2.1)
    fun first => (fresh first).2.2 node.id rfl houses first
  have narrows : Narrows ((setting.plain.hold (some scope)).settle (some scope)) setting :=
    (narrows_settle _ _).trans ((narrows_hold setting.plain _).trans (narrows_plain setting))
  have parameters : Keeps ((setting.plain.hold (some scope)).settle (some scope)) surroundings after
      none (node.third.present.forM (bindTemplateParameter scope)) fun _ _ _ => True := by
    refine keeps_forM still trivial fun parameter member later left _ _ ready => ?_
    refine keeps_bindTemplateParameter ready fun part among => ?_
    have inThird := (Tree.preorder_sublist_of_mem member).trans
      (Tree.parts_present_sublist node.third)
    have inNode := inThird.trans (Tree.preorder_nth_sublist node 2)
    exact suits.declaring part (inNode.subset among)
  refine .narrowly narrows parameters ?_
  intro _ later left still ready evolves next _
  obtain rfl : left = none := next.elim id id
  have suits := suits.plainly
    (evolves.widen ((narrows_settle _ _).trans (narrows_hold setting.plain _)))
  have awaiting := (still.awaitNew (isHeader.grows evolves.grows) fun first =>
    begun.unknown (fresh first).1 first).widen (narrows_plain setting)
  exact keeps_withHeader (well (node.nth 4) awaiting
    (suits.sublist (Tree.preorder_nth_sublist node 4)))

end Binding
end CppNames
