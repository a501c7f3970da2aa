import CppNames.Proofs.Binding.LastType

namespace CppNames
namespace Binding

/-!
# What is left of declarations and templates

A function has a scope for its parameters and one for its body.  That of the body lies in the header
of the function, if there is one, and the header in the scope that the qualifier of the function
denotes.  A header that is not moved stays where it is from the moment when it is settled.
-/

open Table

variable {setting : Setting} {surroundings : Surroundings} {table : Table}
  {pending : Option ScopeId} {visit checked : Visit}

/-! ## Parameters -/

theorem lasts_prototypeScope (ready : Ready setting surroundings table pending) {declarator : Node}
    {outer : ScopeId} (isDeclarator : declarator.isA .declarator = true)
    (is : setting.content declarator.id = .declarator)
    (unbound : Unbound {.note declarator.id} table) (inside : table.HasScope outer)
    (outside : Outside setting pending outer) :
    Lasts setting {.note declarator.id} surroundings table pending (prototypeScope declarator outer)
      (prototypeScope declarator outer)
      (fun scope after left => (pending = left ∧ after.HasShape scope .prototype) ∧
        ∀ one other, table.Around one other → after.Around one other)
      fun scope state => state.annotations.scope? declarator = some scope := by
  unfold prototypeScope
  refine (Lasts.noting (fun _ _ => True) (Set.mem_singleton _) (isCell_of_isA isDeclarator)
    (lasts_scopeFor ready inside ?_ ?_ (unbound.noted declarator.id rfl) outside ?_)).weaken ?_ ?_
  · exact ⟨rfl, rfl, fun _ member => nomatch member⟩
  · rw [is]
    rfl
  · rintro (impossible | impossible) <;> cases impossible
  · exact fun _ _ _ holds => ⟨⟨holds.1.1, holds.1.2.1.hasShape is fun _ bears => bears⟩, holds.2.2.1⟩
  · exact fun _ _ holds => holds.2

theorem lasts_bindParameter (well : VisitsLast [] visit checked) (firstly : setting.first = true)
    (ready : Ready setting surroundings table pending) (scope : ScopeId) {parameter : Node}
    (once : Once setting table parameter.preorder)
    (is : parameter.isA .parameterDeclaration = true) :
    Lasts setting (usesOf parameter.preorder) surroundings table pending
      (bindParameter visit scope parameter) (bindParameter checked scope parameter)
      (fun _ _ _ => True)
      fun _ state => ∀ item ∈ parameter.third.present,
        Traced state.table state.annotations item surroundings.current := by
  have inside : (Tree.parts parameter.third.present).Sublist (Tree.parts parameter.elements) :=
    (Tree.parts_present_sublist _).trans (Tree.preorder_nth_sublist parameter 2)
  have splits := (once.own is inside).narrow (Splits.declareNote parameter).inFront
  have elements := (once.nth 2).present
  unfold bindParameter
  dsimp only
  split
  · refine .behind firstly ready (looks_answer _) fun span _ => ?_
    refine .bind firstly splits (lasts_declareQuietly firstly ready (once.unbound.mono splits.inFront)
      nofun) ?_
    intro _ after left ready evolves _ _
    exact (lasts_visitElements well firstly ready (elements.behind splits.apart evolves)).weaken
      (fun _ _ _ holds => holds) fun _ _ holds _ => holds
  · exact (lasts_visitElements well firstly ready elements).widen splits.inBack

/-- The parameters of a declarator stand inside a function. -/
theorem Once.parameterList {declarator : Node} (once : Once setting table declarator.preorder)
    (is : declarator.isA .declarator = true) :
    Once setting.inward table declarator.parameterList.preorder := by
  have among := Tree.preorder_elementBehind_sublist declarator .openParen
  refine once.inward (among.trans (Tree.parts_elements_sublist declarator)).subperm fun part member => ?_
  refine once.inner declarator (mem_preorder_of_isA is) part ?_
  rw [Tree.innerParts_of_isA (.inr (.inr is))]
  exact among.subset member

theorem lasts_bindParameters (well : VisitsLast [] visit checked) (firstly : setting.first = true)
    (ready : Ready setting surroundings table pending) {scope : ScopeId} {declarator : Node}
    (once : Once setting.inward table declarator.parameterList.preorder)
    (isOpen : table.Open scope) :
    Lasts setting (usesOf declarator.parameterList.preorder) surroundings table pending
      (bindParameters visit declarator.parameterList scope)
      (bindParameters checked declarator.parameterList scope) (fun _ _ _ => True)
      fun _ state => ∀ item ∈ parameterParts declarator,
        Traced state.table state.annotations item scope := by
  have declared : (Tree.parts (declarator.parameterList.present.filter
      (·.isA .parameterDeclaration))).Sublist declarator.parameterList.preorder :=
    (Tree.parts_sublist List.filter_sublist).trans (Tree.parts_present_sublist _)
  have inwardFirst : setting.inward.first = true := firstly
  have each := lasts_visits inwardFirst (ready.inward isOpen) (once.sublist declared)
    fun item member _ _ ready once _ _ =>
      lasts_bindParameter well inwardFirst ready scope once (List.mem_filter.mp member).2
  refine (Lasts.inward ready (each.widen (usesOf_mono declared.subset))).weaken
    (fun _ _ _ holds => holds) fun _ _ all item member => ?_
  rcases List.mem_flatMap.mp member with ⟨parameter, among, inside⟩
  exact all parameter among item inside

/-! ## Functions -/

theorem lasts_bindPrototype (well : VisitsLast [] visit checked) (firstly : setting.first = true)
    (ready : Ready setting surroundings table pending) {declarator : Node} {name type : Encoding}
    {span : Option Span} {storage : Storage} {header : Option ScopeId}
    (once : Once setting table declarator.preorder) (is : declarator.isA .declarator = true)
    (taken : Taken setting table pending header) :
    Lasts setting (usesOf declarator.preorder) surroundings table pending
      (bindPrototype visit declarator name type span storage header)
      (bindPrototype checked declarator name type span storage header) (fun _ _ _ => True)
      fun _ state => (name.isQualified = false →
          DeclaredIn state.table surroundings.current declarator.id name) ∧
        (¬ storage.isFriend = true →
          ∀ child ∈ within state.annotations declarator (parameterParts declarator),
            Traced state.table state.annotations child.1 child.2) := by
  have parameters := Tree.preorder_elementBehind_sublist declarator .openParen
  have splits := (once.own is parameters).assoc (.declareNote declarator)
  have fits := declare_subset_usesOf (mem_preorder_of_isA is)
  unfold bindPrototype
  split
  · next isFriend =>
    refine .pure ready trivial fun same spares => ⟨fun _ => ?_, fun other => absurd isFriend other⟩
    exact once.unbound.declaredIn (fits rfl) same spares _ _
  have plain := (body_functionKind declarator.parameterList header.isSome false).2
  refine .bind firstly splits.1 (lasts_declareNamed firstly ready (once.unbound.mono fits) plain) ?_
  rintro ⟨id, scope⟩ after left ready evolves next ⟨rfl, _, isOpen, _⟩
  rcases (taken.later evolves.grows rfl rfl next).outside ready.formed isOpen with ⟨inside, outside⟩
  have unbound := (once.unbound.mono splits.1.inBack).behind splits.1.apart evolves
  have apart := splits.1.apart.mono_right splits.2.inBack
  have inner := (once.parameterList is).behind apart evolves
  refine .bind firstly splits.2 (lasts_prototypeScope ready is (once.self is)
    (unbound.mono splits.2.inFront) inside outside) ?_
  rintro prototype later left ready further _ ⟨⟨rfl, has⟩, _⟩
  refine (lasts_bindParameters well firstly ready (inner.behind splits.2.apart further)
    (has.isOpen rfl)).weaken (fun _ _ _ holds => holds) fun _ _ all noted declared => ?_
  exact ⟨declared, fun _ => forall_within noted all⟩

/-- What a function definition binds inside the scopes of the function. -/
def innerParts (node : Node) : List Node :=
  node.third.parameterList.preorder ++
    ((memberInitializers node).preorder ++ Tree.parts node.last.present)

/-- What the nodes of a function definition spell, and that they are different ones. -/
structure DefinesOnce (setting : Setting) (node : Node) : Prop where
  isDeclaration : setting.content node.id = .declaration
  isDeclarator : setting.content node.third.id = .declarator
  isBlock : setting.content node.last.id = .block
  apart : node.third.id ≠ node.id ∧ node.third.id ≠ node.last.id ∧ node.id ≠ node.last.id
  cells : node.isCell = true ∧ node.third.isA .declarator = true
  inner : ∀ part ∈ innerParts node, part.id ∈ setting.inner

theorem lasts_functionScope (firstly : setting.first = true)
    (ready : Ready setting surroundings table pending) {node : Node} {name : Encoding}
    {outer : ScopeId} (defines : DefinesOnce setting node)
    (unbound : Unbound (notesOf node node.third node.last) table) (inside : table.HasScope outer)
    (outside : Outside setting pending outer) :
    Lasts setting (notesOf node node.third node.last) surroundings table pending
      (functionScope node node.third node.last name outer) (functionScope node node.third node.last name outer)
      (fun scopes after left => (pending = left ∧ after.HasShape scopes.1 .prototype ∧
          after.HasShape scopes.2 .functionBody) ∧ after.Around scopes.2 outer ∧
        ∀ one other, table.Around one other → after.Around one other)
      fun scopes state => state.annotations.scope? node.third = some scopes.1 ∧
        state.annotations.scope? node = some scopes.2 := by
  rcases defines with ⟨isDeclaration, isDeclarator, isBlock, apart, cells, _⟩
  rcases Splits.notesOf apart.1 apart.2.1 apart.2.2 with ⟨first, rest⟩
  unfold functionScope
  refine .bind firstly first (lasts_prototypeScope ready cells.2 isDeclarator
    (unbound.mono first.inFront) inside outside) ?_
  rintro prototype after left ready evolves _ ⟨⟨rfl, hasPrototype⟩, staysFirst⟩
  refine .behind firstly ready (looks_answer _) fun last _ => ?_
  refine .behind firstly ready (looks_answer _) fun key _ => ?_
  have unbound := (unbound.mono first.inBack).behind first.apart evolves
  refine .entering (fun _ _ => True) firstly rest rfl cells.1 (lasts_scopeFor ready
    (evolves.grows.hasScope inside) (isFresh_functionBody hasPrototype) ?_
    (unbound.noted _ (rest.inFront rfl)) outside ?_) ?_
  · rw [isDeclaration]
    rfl
  · rintro (impossible | impossible) <;> cases impossible
  rintro scope later left ready evolves _ ⟨⟨rfl, hasNoted, _⟩, around, staysSecond, _⟩
  have has : later.HasShape scope .functionBody :=
    hasNoted.hasShape isDeclaration fun _ bears => bears
  have hasPrototype := evolves.grows.hasShape hasPrototype
  have bears : (setting.content node.last.id).Bears node.last.id .functionBody := by
    rw [isBlock]
    exact .inl rfl
  have used := Set.mem_singleton (Use.note node.last.id)
  have ready := ready.using {Use.note node.last.id}
  have notes : Keeps (setting.using {Use.note node.last.id}) surroundings later pending
      (do
        annotate node.last scope
        change (·.setNodeScope node.last.id scope)
        return (prototype, scope))
      fun scopes after left => scopes = (prototype, scope) ∧ pending = left ∧
        later.setNodeScope node.last.id scope = after ∧ later.Grows after := by
    refine .annotating ready used ((keeps_change ready
      (ready.formed.setNodeScope has bears (.inl used))).bind ?_)
    rintro _ last left ready further _ ⟨rfl, rfl⟩
    exact .pure ready ⟨rfl, rfl, rfl, further.grows⟩
  refine Lasts.weaken (.ofKeeps notes fun {value _ final} holds _ =>
    (?_ : final.annotations.scope? node = some scope →
      final.annotations.scope? node.third = some prototype →
        final.annotations.scope? node.third = some value.1 ∧
          final.annotations.scope? node = some value.2)) ?_ ?_
  · rw [holds.1]
    exact fun notedNode notedDeclarator => ⟨notedDeclarator, notedNode⟩
  · rintro _ last left ⟨rfl, rfl, rfl, grows⟩
    -- the note on the body moves no scope
    exact ⟨⟨rfl, grows.hasShape hasPrototype, grows.hasShape has⟩, around,
      fun one other step => staysSecond one other (staysFirst one other step)⟩
  · exact fun _ _ holds _ => holds

/-- What stands inside the scope of a function: the initializers, if there are some, and the body. -/
theorem lasts_bindFunctionBody (well : VisitsLast [] visit checked) (firstly : setting.first = true)
    (ready : Ready setting surroundings table pending) {node body : Node}
    (once : Once setting table ((memberInitializers node).preorder ++ Tree.parts body.present)) :
    Lasts setting (usesOf ((memberInitializers node).preorder ++ Tree.parts body.present))
      surroundings table pending (bindFunctionBody visit node body) (bindFunctionBody checked node body)
      (fun _ _ _ => True)
      fun _ state => ∀ item ∈ [memberInitializers node].filter (!·.isNil) ++ body.present,
        Traced state.table state.annotations item surroundings.current := by
  have splits := Splits.ofParts (.refl _) once.distinct
  have initializers := once.sublist (List.sublist_append_left ..)
  have elements := once.sublist (List.sublist_append_right ..)
  unfold bindFunctionBody
  dsimp only
  split
  · next there =>
    rcases Bool.and_eq_true_iff.mp there with ⟨isThere, isNoBlock⟩
    have only : [node.nth 3].filter (!·.isNil) = [node.nth 3] :=
      List.filter_eq_self.mpr fun item member => List.mem_singleton.mp member ▸ isThere
    rw [memberInitializers_eq_nth isNoBlock] at initializers splits ⊢
    rw [only]
    refine .bind firstly splits (well.plain firstly ready initializers) ?_
    intro _ after left ready evolves _ _
    refine (lasts_visitElements well firstly ready (elements.behind splits.apart evolves)).weaken
      (fun _ _ _ holds => holds) fun _ _ others own item member => ?_
    exact (List.mem_cons.mp member).elim (fun same => same ▸ own) (others item)
  · next nothing =>
    have none : [memberInitializers node].filter (!·.isNil) = [] := by
      refine List.filter_eq_nil_iff.mpr fun item member => ?_
      rw [List.mem_singleton.mp member]
      unfold memberInitializers
      split
      · simp [Tree.isNil]
      · simp_all
    rw [none]
    exact (lasts_visitElements well firstly ready elements).widen splits.inBack

/-- A header that is moved lies in the scope that it is moved to. -/
theorem around_of_moveHeader {name : Encoding} {header : Option ScopeId} {declaring : ScopeId}
    {state behind : State} {done : Unit}
    (isHeader : ∀ scope, header = some scope → IsHeader state.table scope)
    (isOpen : state.table.Open declaring) (qualified : name.isQualified = true)
    (runs : moveHeader name header declaring surroundings state = .ok done behind) :
    ∀ scope, header = some scope → behind.table.Around scope declaring := by
  rintro scope rfl
  rcases isHeader scope rfl with ⟨declaration, has⟩
  unfold moveHeader at runs
  dsimp only at runs
  rw [if_pos qualified] at runs
  rcases Binds.of_bind runs with ⟨moved, middle, asked, changed⟩
  rcases of_ask asked with ⟨done, rfl⟩
  cases changed
  exact around_reparent done (isOpen.ne has).symm

theorem lasts_moveHeader {name : Encoding} {header : Option ScopeId} {declaring : ScopeId}
    (held : Ready (setting.hold header) surroundings table pending)
    (ready : Ready setting surroundings table pending)
    (taken : Taken setting table pending header)
    (loose : ∀ scope, header = some scope → scope ∉ setting.settled)
    (isOpen : table.Open declaring) :
    Lasts setting ∅ surroundings table pending (moveHeader name header declaring)
      (moveHeader name header declaring)
      (fun _ after left => pending = left ∧ (name.isQualified = true →
        ∀ scope, header = some scope → after.Around scope declaring)) fun _ _ => True := by
  have isHeader : ∀ scope, header = some scope → IsHeader table scope :=
    fun scope same => (taken scope same).2.1
  have childless : ∀ scope, header = some scope → setting.first = true → Childless table scope := by
    rintro scope rfl
    exact held.childless
  refine .also (.only (keeps_moveHeader (ready.using ∅) isHeader childless (fun scope same _ =>
    ⟨loose scope same, (taken scope same).1 ▸ nofun⟩) isOpen)) ?_
  rintro early done value rfl runs qualified
  exact around_of_moveHeader isHeader isOpen qualified runs

/-- Once its header is where it belongs, the scope of a function lies in it, or where the function is
declared. -/
theorem lasts_definedFunction (well : VisitsLast [] visit checked) (firstly : setting.first = true)
    (ready : Ready setting surroundings table none) {node : Node} {name : Encoding}
    {header : Option ScopeId} {symbol : Option SymbolId} {declaring : ScopeId}
    (splits : Splits (notesOf node node.third node.last ∪ usesOf (innerParts node))
      (notesOf node node.third node.last) (usesOf (innerParts node)))
    (unbound : Unbound (notesOf node node.third node.last) table)
    (once : Once setting table (innerParts node))
    (defines : DefinesOnce setting node)
    (taken : Taken setting table none header) (isOpen : table.Open declaring)
    (answers : Answers (some .functionBody) table symbol) :
    Lasts setting (notesOf node node.third node.last ∪ usesOf (innerParts node)) surroundings table
      none
      (do
        let (prototype, scope) ←
          functionScope node node.third node.last name (header.getD declaring)
        defineScope symbol scope
        bindParameters visit node.third.parameterList prototype
        inScope scope (bindFunctionBody visit node node.last))
      (do
        let (prototype, scope) ←
          functionScope node node.third node.last name (header.getD declaring)
        defineScope symbol scope
        bindParameters checked node.third.parameterList prototype
        inScope scope (bindFunctionBody checked node node.last))
      (fun _ _ _ => True)
      fun _ state => (∀ child ∈ definitionVisits state.annotations node,
          Traced state.table state.annotations child.1 child.2) ∧
        ∀ rest, List.IsChain table.Around (header.getD declaring :: rest) →
          ∃ body ∈ state.annotations.scope? node,
            List.IsChain state.table.Around (body :: header.getD declaring :: rest) := by
  rcases taken.outside ready.formed isOpen with ⟨inside, outside⟩
  refine .bind firstly splits
    (lasts_functionScope firstly ready defines unbound inside outside) ?_
  rintro ⟨prototype, scope⟩ entered left ready evolves _
    ⟨⟨rfl, hasPrototype, has⟩, around, stays⟩
  have isOpen : entered.Open scope := has.isOpen rfl
  have once := once.behind splits.apart evolves
  refine .since firstly ?_
  refine .bind firstly (.none _) (.only (keeps_defineScope (ready.using ∅)
    (answers.grows evolves.grows) has nofun)) ?_
  rintro _ defined left ready evolves _ rfl
  have once := once.behind (Set.empty_disjoint _) evolves
  have hasPrototype := evolves.grows.hasShape hasPrototype
  have front := List.sublist_append_left node.third.parameterList.preorder
    ((memberInitializers node).preorder ++ Tree.parts node.last.present)
  have apart := Splits.ofParts (.refl _) once.distinct
  refine .bind firstly apart (lasts_bindParameters well firstly ready
    (once.inward front.subperm fun part member => defines.inner part (front.subset member)) (hasPrototype.isOpen rfl)) ?_
  intro _ last left ready further _ _
  have isOpenLast := further.grows.isOpen (evolves.grows.isOpen isOpen)
  have body := ((once.sublist (List.sublist_append_right ..)).behind apart.apart further).inward
    (.refl _) fun part member => defines.inner part (List.mem_append_right _ member)
  have inwardFirst : setting.inward.first = true := firstly
  refine (Lasts.inward ready (lasts_bindFunctionBody well inwardFirst (ready.inward isOpenLast)
    body)).weaken (fun _ _ _ holds => holds) ?_
  intro _ state statements declared _ _ ways noted
  constructor
  · exact List.forall_mem_append.mpr
      ⟨forall_within noted.1 declared, forall_within noted.2 statements⟩
  · refine fun rest way => ⟨scope, noted.2, ?_⟩
    exact ways.chain (.inl isOpen) .refl (.cons_cons around (way.imp stays))

/-- What is left of the definition of a function behind the words of its type. -/
structure Defined (node : Node) (scope : ScopeId) (header : Option ScopeId) (before : Table)
    (after : State) : Prop where
  names : ∀ name ∈ node.third.name?, name.isQualified = false →
    DeclaredIn after.table scope node.third.id name
  inner : ∀ child ∈ definitionVisits after.annotations node,
    Traced after.table after.annotations child.1 child.2
  lies : ∀ name ∈ node.third.name?, name.isQualified = true →
    ∀ target ∈ denoted? before scope name, ∃ body ∈ after.annotations.scope? node,
      List.IsChain after.table.Around (body :: (header.toList ++ [target]))

theorem lasts_bindDefinition (well : VisitsLast [] visit checked) (firstly : setting.first = true)
    {node : Node} {name : Encoding} {header : Option ScopeId}
    (held : Ready (setting.hold header) surroundings table none)
    (once : Once setting table (definitionParts node node.third node.last))
    (defines : DefinesOnce setting node)
    (named : node.third.name? = some name) (taken : Taken setting table none header)
    (loose : ∀ scope, header = some scope → scope ∉ setting.settled) :
    Lasts setting (usesOf (definitionParts node node.third node.last)) surroundings table none
      (bindDefinition visit node node.third node.last name header)
      (bindDefinition checked node node.third node.last name header) (fun _ _ _ => True)
      fun _ state => Defined node surroundings.current header table state := by
  have splits := (Splits.ofParts (.refl _) once.distinct).assoc
    (.definition node node.third node.last)
  have kinds := body_functionKind node.third.parameterList header.isSome true
  have narrows := narrows_hold setting header
  have ready := held.widen narrows
  have heldFirst : (setting.hold header).first = true := firstly
  rw [bindDefinition_eq, bindDefinition_eq]
  refine .behind firstly ready (looks_answer _) fun span _ => ?_
  refine .bindIn firstly narrows splits.1 (lasts_declareNamed heldFirst held
    (once.unbound.mono splits.1.inFront) kinds.2) ?_
  rw [kinds.1]
  rintro ⟨symbol, declaring⟩ after left still ready evolves _ ⟨rfl, answers, isOpen, denotes⟩
  have evolves := evolves.widen (narrows_using narrows subset_rfl)
  have taken : Taken setting after none header := taken.later evolves.grows rfl rfl (.inr rfl)
  have unbound := (once.unbound.mono splits.1.inBack).behind splits.1.apart evolves
  have inner := (once.sublist (List.sublist_append_right ..)).behind
    (splits.1.apart.mono_right splits.2.inBack) evolves
  refine .bind firstly (.none _) (lasts_moveHeader still ready taken loose isOpen) ?_
  rintro _ moved left ready evolves _ ⟨rfl, lies⟩
  have nothing := Set.empty_disjoint (notesOf node node.third node.last ∪ usesOf (innerParts node))
  refine (lasts_definedFunction well firstly ready splits.2
    ((unbound.behind nothing evolves).mono splits.2.inFront)
    (inner.behind (nothing.mono_right splits.2.inBack) evolves) defines
    (taken.later evolves.grows rfl rfl (.inr rfl)) (evolves.grows.isOpen isOpen)
    (answers.grows evolves.grows)).weaken (fun _ _ _ holds => holds) ?_
  rintro _ state ⟨traced, chains⟩ _ names
  constructor
  · intro other found
    cases named.symm.trans found
    exact names
  · exact traced
  · intro other found qualified target member
    cases named.symm.trans found
    rw [← denotes qualified target member]
    cases header with
    | none => exact chains [] (.singleton _)
    | some header => exact chains [declaring] (.cons_cons (lies qualified header rfl) (.singleton _))

theorem lasts_bindFunction (well : VisitsLast [] visit checked) (firstly : setting.first = true)
    {node : Node} {header : Option ScopeId}
    (held : Ready (setting.hold header) surroundings table none)
    (once : Once setting table (definitionParts node node.third node.last))
    (defines : DefinesOnce setting node) (taken : Taken setting table none header)
    (loose : ∀ scope, header = some scope → scope ∉ setting.settled) :
    Lasts setting (usesOf (definitionParts node node.third node.last)) surroundings table none
      (bindFunction visit node header) (bindFunction checked node header) (fun _ _ _ => True)
      fun _ state => Defined node surroundings.current header table state := by
  have ready := held.widen (narrows_hold setting header)
  unfold bindFunction
  dsimp only
  split
  · exact .never ready (reads_malformed _ _ _)
  · split
    · exact .never ready (reads_malformed _ _ _)
    · split
      · exact .never ready (reads_malformed _ _ _)
      · next name named =>
        exact lasts_bindDefinition well firstly held once defines named taken loose

/-- What a definition of a function binds behind the words of its type. -/
theorem lasts_functionBehind (well : VisitsLast [] visit checked) (firstly : setting.first = true)
    {node : Node} {header : Option ScopeId} (once : Once setting table node.preorder)
    (is : node.isA .declaration = true) (isDeclarator : node.third.isA .declarator = true)
    (isBlock : node.last.isA .block = true) (taken : Taken setting table none header)
    (loose : ∀ scope, header = some scope → scope ∉ setting.settled) {after : Table}
    {left : Option ScopeId} (still : Ready (setting.hold header) surroundings after left)
    (evolves : Evolves ((setting.hold header).using (usesOf node.second.preorder)) table after)
    (next : left = none ∨ left = none) :
    Lasts setting (usesOf (definitionParts node node.third node.last)) surroundings after left
      (bindFunction visit node header) (bindFunction checked node header) (fun _ _ _ => True)
      fun _ state => Defined node surroundings.current header after state := by
  obtain rfl : left = none := next.elim id id
  have inside := definition_subperm is isDeclarator isBlock
  have splits := Splits.ofParts inside once.distinct
  have parts := once.subperm inside
  have behind := (parts.sublist (List.sublist_append_right ..)).behind splits.apart evolves
  have defined : node.definesFunction = true := by
    simp only [Tree.definesFunction, is, isDeclarator, isBlock, Bool.and_self]
  have block : node.last ∈ node.second.preorder ++ definitionParts node node.third node.last := by
    simp [definitionParts]
  refine lasts_bindFunction well firstly still behind ⟨once.self is, (once.nth 2).self isDeclarator,
    parts.spells _ block _ (eq_of_beq isBlock), apart_of_definitionParts behind.distinct,
    ⟨isCell_of_isA is, isDeclarator⟩, ?_⟩ (taken.later evolves.grows rfl rfl (.inr rfl)) loose
  intro part member
  rcases List.mem_append.mp member with parameter | statement
  · refine once.inner node.third ?_ part ?_
    · exact ((Tree.preorder_nth_sublist node 2).trans (Tree.parts_elements_sublist node)).subset
        (mem_preorder_of_isA isDeclarator)
    · rw [Tree.innerParts_of_isA (.inr (.inr isDeclarator))]
      exact (Tree.preorder_elementBehind_sublist node.third .openParen).subset parameter
  · refine once.inner node (mem_preorder_of_isA is) part (statements_subset_innerParts defined ?_)
    refine (List.mem_append.mp statement).elim (List.mem_append_left _) fun inBody =>
      List.mem_append_right _ ?_
    rw [preorder_of_isA isBlock]
    exact List.mem_append_right _ ((Tree.parts_sublist List.filter_sublist).subset inBody)

/-- What is left of a declaration that defines a function. -/
theorem traced_definition {node : Node} {scope : ScopeId} {header : Option ScopeId} {before : Table}
    {state : State} (is : node.isA .declaration = true)
    (isDeclarator : node.third.isA .declarator = true)
    (specified : ∀ specifier ∈ typeSpecifiers node.second,
      Traced state.table state.annotations specifier scope)
    (defined : Defined node scope header before state) :
    Traced state.table state.annotations node scope := by
  have spells := spells_of_isA is
  refine .intro (.of_names spells nofun ?_) ?_
  · unfold declaredNames
    rw [spells]
    dsimp only
    rw [if_pos isDeclarator]
    intro declared member
    rcases List.mem_filterMap.mp member with ⟨other, among, named⟩
    cases List.mem_singleton.mp among
    rcases Option.map_eq_some_iff.mp named with ⟨name, same, rfl⟩
    exact defined.names name same
  · unfold visits
    rw [spells]
    dsimp only
    rw [if_pos isDeclarator]
    exact List.forall_mem_append.mpr ⟨forall_here specified, defined.inner⟩

/-- A declaration that defines a function. -/
theorem lasts_definition (well : VisitsLast [] visit checked) (firstly : setting.first = true)
    {node : Node} {header : Option ScopeId}
    (held : Ready (setting.hold header) surroundings table none)
    (once : Once setting table node.preorder) (is : node.isA .declaration = true)
    (isDeclarator : node.third.isA .declarator = true) (taken : Taken setting table none header)
    (loose : ∀ scope, header = some scope → scope ∉ setting.settled) :
    Lasts setting (usesOf node.preorder) surroundings table none
      (do
        bindType visit node.second .elaborated none
        bindFunction visit node header)
      (do
        bindType checked node.second .elaborated none
        bindFunction checked node header)
      (fun _ _ _ => True)
      fun _ state => Traced state.table state.annotations node surroundings.current := by
  have heldFirst : (setting.hold header).first = true := firstly
  have words := lasts_bindType well .elaborated heldFirst held ((once.nth 1).hold header) .none .none
    rfl .nil
  have narrows := narrows_hold setting header
  by_cases isBlock : node.last.isA .block = true
  · refine .bindIn firstly narrows (.ofParts (definition_subperm is isDeclarator isBlock)
      once.distinct) words ?_
    intro _ after left still _ evolves next _
    exact (lasts_functionBehind well firstly once is isDeclarator isBlock taken loose still evolves
      next).weaken (fun _ _ _ holds => holds) fun _ _ defined specified =>
        traced_definition is isDeclarator specified defined
  · refine .bindIn firstly narrows (.only _) (words.widen (usesOf_mono
      ((Tree.preorder_nth_sublist node 1).trans (Tree.parts_elements_sublist node)).subset)) ?_
    intro _ after left _ ready _ _ _
    unfold bindFunction
    dsimp only
    split
    · exact .never ready (reads_malformed _ _ _)
    · rw [if_pos (by simpa using isBlock), if_pos (by simpa using isBlock)]
      exact .never ready (reads_malformed _ _ _)

/-! ## Declarators -/

theorem lasts_bindDeclarator (well : VisitsLast [] visit checked) (firstly : setting.first = true)
    (ready : Ready setting surroundings table pending) {declarator : Node} {storage : Storage}
    {header : Option ScopeId} (once : Once setting table declarator.preorder)
    (is : declarator.isA .declarator = true) (taken : Taken setting table pending header) :
    Lasts setting (usesOf declarator.preorder) surroundings table pending
      (bindDeclarator visit storage header declarator)
      (bindDeclarator checked storage header declarator) (fun _ _ _ => True)
      fun _ state => (∀ name, declarator.name? = some name → name.isQualified = false →
          DeclaredIn state.table surroundings.current declarator.id name) ∧
        ∀ child ∈ declaratorVisits state.annotations storage surroundings.current declarator,
          Traced state.table state.annotations child.1 child.2 := by
  have inside : (Tree.parts declarator.present).Sublist (Tree.parts declarator.elements) :=
    Tree.parts_sublist List.filter_sublist
  have splits := (once.own is inside).narrow (Splits.declareNote declarator).inFront
  have elements := once.sublist (inside.trans (Tree.parts_elements_sublist declarator))
  unfold bindDeclarator
  cases named : declarator.name? with
  | none =>
    refine ((lasts_visitElements well firstly ready elements).widen splits.inBack).weaken
      (fun _ _ _ holds => holds) fun _ _ all => ⟨nofun, ?_⟩
    simpa [declaratorVisits, named] using all
  | some name =>
    have declared : ∀ {state : State}, (name.isQualified = false →
        DeclaredIn state.table surroundings.current declarator.id name) →
        ∀ other, some name = some other → other.isQualified = false →
          DeclaredIn state.table surroundings.current declarator.id other := by
      rintro state declared other same
      cases same
      exact declared
    dsimp only
    refine .behind firstly ready (looks_answer _) fun span _ => ?_
    split
    · next isFunction =>
      refine (lasts_bindPrototype well firstly ready once is taken).weaken
        (fun _ _ _ holds => holds) fun _ state left => ⟨declared left.1, ?_⟩
      unfold declaratorVisits
      rw [named, isFunction]
      by_cases isFriend : storage.isFriend = true
      · simp [isFriend]
      · simpa [isFriend] using left.2 isFriend
    · next isVariable =>
      refine .behind firstly ready (reads_variableKind _ _ _) fun kind plain => ?_
      have declares : Lasts setting {.declare declarator.id} surroundings table pending
          (discard (declareNamed name kind (declarator.type?.getD .empty) declarator.id span))
          (discard (declareNamed name kind (declarator.type?.getD .empty) declarator.id span))
          (fun _ _ left => pending = left) fun _ state => name.isQualified = false →
            DeclaredIn state.table surroundings.current declarator.id name :=
        .discard (lasts_declareNamed firstly ready (once.unbound.mono splits.inFront) plain.2)
          fun _ _ _ done => done.1
      refine .bind firstly splits declares ?_
      intro _ after left ready evolves _ _
      refine (lasts_visitElements well firstly ready (elements.behind splits.apart evolves)).weaken
        (fun _ _ _ holds => holds) fun _ state all names => ⟨declared names, ?_⟩
      simpa [declaratorVisits, isVariable] using all

/-! ## Declarations -/

/-- What is left of a declaration that defines no function. -/
theorem traced_simple {node : Node} {scope : ScopeId} {state : State}
    (is : node.isA .declaration = true) (isDeclarator : ¬ node.third.isA .declarator = true)
    (specified : ∀ specifier ∈ typeSpecifiers node.second,
      Traced state.table state.annotations specifier scope)
    (left : ∀ declarator ∈ declarators node, (∀ name, declarator.name? = some name →
        name.isQualified = false → DeclaredIn state.table scope declarator.id name) ∧
      ∀ child ∈ declaratorVisits state.annotations (Storage.ofSpecifiers node.first) scope declarator,
        Traced state.table state.annotations child.1 child.2) :
    Traced state.table state.annotations node scope := by
  have spells := spells_of_isA is
  refine .intro (.of_names spells nofun ?_) ?_
  · unfold declaredNames
    rw [spells]
    dsimp only
    rw [if_neg isDeclarator]
    intro declared member
    rcases List.mem_filterMap.mp member with ⟨declarator, among, named⟩
    rcases Option.map_eq_some_iff.mp named with ⟨name, same, rfl⟩
    exact (left declarator among).1 name same
  · unfold visits
    rw [spells]
    dsimp only
    rw [if_neg isDeclarator]
    refine List.forall_mem_append.mpr ⟨forall_here specified, fun child member => ?_⟩
    rcases List.mem_flatMap.mp member with ⟨declarator, among, inside⟩
    exact (left declarator among).2 child inside

/-- The declarators of a declaration behind the words of its type. -/
theorem lasts_declarators (well : VisitsLast [] visit checked) (firstly : setting.first = true)
    {node : Node} {storage : Storage} {header : Option ScopeId}
    (once : Once setting table node.preorder) (taken : Taken setting table pending header)
    {after : Table} {left : Option ScopeId} (ready : Ready setting surroundings after left)
    (evolves : Evolves (setting.using (usesOf node.second.preorder)) table after)
    (next : left = none ∨ left = pending) :
    Lasts setting (usesOf (Tree.parts (declarators node))) surroundings after left
      ((declarators node).forM (bindDeclarator visit storage header))
      ((declarators node).forM (bindDeclarator checked storage header)) (fun _ _ _ => True)
      fun _ state => ∀ declarator ∈ declarators node, (∀ name, declarator.name? = some name →
          name.isQualified = false →
            DeclaredIn state.table surroundings.current declarator.id name) ∧
        ∀ child ∈ declaratorVisits state.annotations storage surroundings.current declarator,
          Traced state.table state.annotations child.1 child.2 := by
  have both := wordsAndDeclarators_sublist node
  have splits := Splits.ofParts both.subperm once.distinct
  have behind := (once.sublist ((List.sublist_append_right ..).trans both)).behind splits.apart evolves
  refine lasts_visits firstly ready behind fun item member _ _ ready once further header => ?_
  exact lasts_bindDeclarator well firstly ready once (List.mem_filter.mp member).2
    ((taken.later evolves.grows rfl rfl next).later further.grows rfl rfl header)

/-- A declaration that declares variables, function prototypes or types only. -/
theorem lasts_simpleDeclaration (well : VisitsLast [] visit checked) (use : ClassUse)
    (firstly : setting.first = true) (ready : Ready setting surroundings table pending) {node : Node}
    {header inner : Option ScopeId} {route : List ScopeId} (once : Once setting table node.preorder)
    (is : node.isA .declaration = true) (isDeclarator : ¬ node.third.isA .declarator = true)
    (taken : Taken setting table pending header) (takenInner : Taken setting table pending inner)
    (settles : Settles setting inner) (same : inner = route.head?)
    (chain : List.IsChain table.Around route) :
    Lasts setting (usesOf node.preorder) surroundings table pending
      (do
        bindType visit node.second use inner
        (declarators node).forM (bindDeclarator visit (Storage.ofSpecifiers node.first) header))
      (do
        bindType checked node.second use inner
        (declarators node).forM (bindDeclarator checked (Storage.ofSpecifiers node.first) header))
      (fun _ _ _ => True)
      fun _ state => Traced state.table state.annotations node surroundings.current := by
  have splits := Splits.ofParts (wordsAndDeclarators_sublist node).subperm once.distinct
  refine .bind firstly splits (lasts_bindType well use firstly ready (once.nth 1) takenInner settles
    same chain) ?_
  intro _ after left ready evolves next _
  exact (lasts_declarators well firstly once taken ready evolves next).weaken
    (fun _ _ _ holds => holds) fun _ _ left specified => traced_simple is isDeclarator specified left

/-- Some headers that stand around a declaration, up to the one that comes next. -/
theorem Under.route {headers : List Node} (under : Under headers table pending) :
    ∃ route : List ScopeId, pending = route.head? ∧ List.IsChain table.Around route ∧
      (headers = [] ∨ scopesOf table headers = route.map some) := by
  rcases under with none | ⟨route, scopes, same, chain⟩
  · cases pending with
    | none => exact ⟨[], rfl, .nil, .inl none⟩
    | some header => exact ⟨[header], rfl, .singleton _, .inl none⟩
  · exact ⟨route, same, chain, .inr scopes⟩

theorem lasts_bindDeclaration {headers : List Node} (well : VisitsLast [] visit checked)
    (firstly : setting.first = true) (ready : Ready setting surroundings table pending) {node : Node}
    (once : Once setting table node.preorder) (is : node.isA .declaration = true)
    (under : Under headers table pending) :
    Lasts setting (usesOf node.preorder) surroundings table pending (bindDeclaration visit node)
      (bindDeclaration checked node) (fun _ _ _ => True)
      fun _ state => Traced state.table state.annotations node surroundings.current := by
  have taken := ready.taken
  have held := ready.holdTaken
  have settled := ready.settleTaken
  have loose : ∀ scope, pending = some scope → scope ∉ setting.settled :=
    fun scope same member => (ready.formed.housed firstly).apart scope member same
  unfold bindDeclaration
  refine .bind firstly (.none _) (.only (keeps_takeHeader (ready.using ∅))) ?_
  rintro header after left ready _ _ ⟨rfl, rfl, rfl⟩
  rcases under.route with ⟨route, same, chain, _⟩
  refine Lasts.weaken ?_ (fun _ _ _ holds => holds) fun _ _ holds _ => holds
  dsimp only
  split
  · next isDeclarator =>
    exact lasts_definition well firstly held once is isDeclarator taken loose
  · next isDeclarator =>
    split
    · have stays : Settles (setting.settle header) header := fun _ same => .inl same
      have settledFirst : (setting.settle header).first = true := firstly
      exact (lasts_simpleDeclaration well .forward settledFirst settled (once.settle header) is
        isDeclarator taken taken stays same chain).inLarger (narrows_settle setting header)
    · exact lasts_simpleDeclaration well .elaborated firstly ready once is isDeclarator taken .none
        .none rfl .nil

/-! ## Type definitions -/

theorem lasts_bindTypedefName (firstly : setting.first = true)
    (ready : Ready setting surroundings table pending) {declarator : Node}
    (unbound : Unbound {.declare declarator.id} table) :
    Lasts setting {.declare declarator.id} surroundings table pending (bindTypedefName declarator)
      (bindTypedefName declarator) (fun _ _ _ => True)
      fun _ state => ∀ name, declarator.name? = some name →
        DeclaredIn state.table surroundings.current declarator.id name := by
  unfold bindTypedefName
  cases declarator.name? with
  | none => exact .pure ready trivial fun _ _ _ => nofun
  | some name =>
    dsimp only
    refine .behind firstly ready reads_current fun scope here => ?_
    subst here
    refine .behind firstly ready (reads_aliasedSymbol _) fun found there => ?_
    refine .behind firstly ready (looks_answer _) fun span _ => ?_
    refine (lasts_declareQuietly firstly ready unbound ?_).weaken (fun _ _ _ _ => trivial) ?_
    · rintro target same
      cases same
      exact there target rfl
    · rintro _ state declared other same
      cases same
      exact declared

/-- The names that a type definition declares behind the words of its type. -/
theorem lasts_typedefNames (firstly : setting.first = true) {node : Node}
    (once : Once setting table node.preorder) {after : Table} {left : Option ScopeId}
    (ready : Ready setting surroundings after left)
    (evolves : Evolves (setting.using (usesOf node.second.preorder)) table after) :
    Lasts setting (usesOf (Tree.parts (declarators node))) surroundings after left
      ((declarators node).forM bindTypedefName) ((declarators node).forM bindTypedefName)
      (fun _ _ _ => True)
      fun _ state => ∀ declarator ∈ declarators node, ∀ name, declarator.name? = some name →
        DeclaredIn state.table surroundings.current declarator.id name := by
  have both := wordsAndDeclarators_sublist node
  have splits := Splits.ofParts both.subperm once.distinct
  have behind := (once.sublist ((List.sublist_append_right ..).trans both)).behind splits.apart evolves
  refine lasts_visits firstly ready behind fun item member _ _ ready once _ _ => ?_
  have fits := declare_subset_usesOf (mem_preorder_of_isA (List.mem_filter.mp member).2)
  exact (lasts_bindTypedefName firstly ready (once.unbound.mono fits)).widen fits

theorem lasts_bindTypedef (well : VisitsLast [] visit checked) (firstly : setting.first = true)
    (ready : Ready setting surroundings table pending) {node : Node}
    (once : Once setting table node.preorder) (is : node.isA .typedefDecl = true) :
    Lasts setting (usesOf node.preorder) surroundings table pending (bindTypedef visit node)
      (bindTypedef checked node) (fun _ _ _ => True)
      fun _ state => Traced state.table state.annotations node surroundings.current := by
  have splits := Splits.ofParts (wordsAndDeclarators_sublist node).subperm once.distinct
  have spells := spells_of_isA is
  refine .bind firstly splits (lasts_bindType well .elaborated firstly ready (once.nth 1) .none .none
    rfl .nil) ?_
  intro _ after left ready evolves _ _
  refine (lasts_typedefNames firstly once ready evolves).weaken (fun _ _ _ holds => holds) ?_
  intro _ state names specified
  refine .intro (.of_names spells nofun ?_) ?_
  · unfold declaredNames
    rw [spells]
    intro declared member _
    rcases List.mem_filterMap.mp member with ⟨declarator, among, named⟩
    rcases Option.map_eq_some_iff.mp named with ⟨name, same, rfl⟩
    exact names declarator among name same
  · unfold visits
    rw [spells]
    exact forall_here specified

/-! ## Templates -/

/-- A step with a header pending, which is gone afterwards. -/
theorem lasts_withHeader {uses : Set Use} {step checked : Bind Unit} {scope : ScopeId}
    {lasting : State → Prop}
    (lasts : Lasts setting uses surroundings table (some scope) step checked (fun _ _ _ => True)
      fun _ => lasting) :
    Lasts setting uses surroundings table none
      (do
        modify fun state => { state with header := some scope }
        step
        modify fun state => { state with header := none })
      (do
        modify fun state => { state with header := some scope }
        checked
        modify fun state => { state with header := none })
      (fun _ _ _ => True) fun _ => lasting where
  keeps := keeps_withHeader lasts.keeps
  same := by
    intro early sameTable sameHeader
    have begins : ({ early with header := some scope } : State).table = table := sameTable
    have same := lasts.same begins rfl
    change (checked >>= fun _ => modify fun state => { state with header := none }) surroundings
        { early with header := some scope } =
      (step >>= fun _ => modify fun state => { state with header := none }) surroundings
        { early with header := some scope }
    cases runs : step surroundings { early with header := some scope } with
    | error error after =>
      rw [Binds.bind_of_error runs, Binds.bind_of_error (same.trans runs)]
    | ok value after => rw [Binds.bind_of_ok runs, Binds.bind_of_ok (same.trans runs)]
  lasts := by
    intro early done final value sameTable sameHeader runs spares
    rcases ok_of_withHeader runs with ⟨last, ran, rfl⟩
    have begins : ({ early with header := some scope } : State).table = table := sameTable
    exact lasts.lasts begins rfl ran ⟨spares.grows, spares.ways, spares.noted, spares.declared⟩

/-- What is left of a template is its header, and what is left of the declaration under it. -/
theorem traced_template {notes : Annotations} {node : Node} {scope : ScopeId}
    (is : node.isA .templateDecl = true) (inner : Traced table notes (node.nth 4) scope) :
    Traced table notes node scope := by
  have spells := spells_of_isA is
  refine .intro (.of_names spells nofun ?_) ?_
  · unfold declaredNames
    rw [spells]
    exact fun _ member => absurd member List.not_mem_nil
  · unfold visits
    rw [spells]
    intro child member
    cases List.mem_singleton.mp member
    exact inner

/-- The headers that stand around the declaration under one more header. -/
theorem Under.inner {headers : List Node} {node : Node} {before after later : Table} {uses : Set Use}
    {scope current : ScopeId} (under : Under headers before pending)
    (apart : ∀ header ∈ headers, .note header.id ∉ uses)
    (evolves : Evolves (setting.using uses) before later) (noted : later.scopeOfNode? node.id = some scope)
    (around : after.Around scope (pending.getD current))
    (stays : ∀ one other, before.Around one other → after.Around one other)
    (ways : ∀ route, List.IsChain after.Around (scope :: route) →
      List.IsChain later.Around (scope :: route)) :
    Under (node :: headers) later (some scope) := by
  rcases under with rfl | ⟨route, scopes, rfl, chain⟩
  · exact .inr ⟨[scope], by simp [scopesOf, noted], rfl, .singleton _⟩
  · refine .inr ⟨scope :: route, ?_, rfl, ways route ?_⟩
    · have same : scopesOf later headers = scopesOf before headers :=
        List.map_congr_left fun header member => evolves.notes header.id (apart header member)
      simp only [scopesOf, List.map_cons, noted] at same scopes ⊢
      rw [same, scopes]
    · cases route with
      | nil => exact .singleton _
      | cons outer rest => exact .cons_cons around (chain.imp stays)

theorem lasts_bindTemplate {headers : List Node} {node : Node}
    (well : VisitsLast (node :: headers) visit checked) (firstly : setting.first = true)
    (ready : Ready setting surroundings table pending) (once : Once setting table node.preorder)
    (is : node.isA .templateDecl = true) (under : Under headers table pending)
    (apart : ∀ header ∈ headers, header.id ∉ node.preorder.map Tree.id) :
    Lasts setting (usesOf node.preorder) surroundings table pending (bindTemplate visit node)
      (bindTemplate checked node) (fun _ _ _ => True)
      fun _ state => Traced state.table state.annotations node surroundings.current := by
  have inside : (Tree.parts node.third.present ++ (node.nth 4).preorder).Sublist
      (Tree.parts node.elements) := Tree.present_and_part_sublist node (by decide : 2 < 4)
  have splits := (once.own is inside).narrow (Splits.declareNote node).inBack
  have taken := ready.taken
  have houses := ready.housesTaken (once.insideSelf is)
  have begun := ready
  unfold bindTemplate
  dsimp only
  split
  · exact .behind firstly ready (reads_malformed _ _ _) fun _ impossible => impossible.elim
  refine .bind firstly (.none _) (.only (keeps_takeHeader (ready.using ∅))) ?_
  rintro header after left ready _ _ ⟨rfl, rfl, rfl⟩
  refine Lasts.weaken ?_ (fun _ _ _ holds => holds) fun _ _ holds _ => holds
  refine .behind firstly ready reads_current fun here same => ?_
  subst same
  rcases taken.outside ready.formed ready.current with ⟨there, outside⟩
  refine .entering (fun _ _ => True) firstly splits rfl (isCell_of_isA is) (lasts_scopeFor ready there
    ?_ ?_ (once.unbound.noted node.id (splits.inFront rfl)) outside fun _ => houses) ?_
  · exact ⟨rfl, rfl, fun _ member => nomatch member⟩
  · rw [once.self is]
    rfl
  rintro scope after left ready evolves _ ⟨⟨rfl, noted, fresh⟩, around, stays, scopeOfNode⟩
  have isHeader : IsHeader after scope :=
    ⟨node.id, noted.hasShape (once.self is) fun _ bears => bears⟩
  have still := ready.holdNew isHeader (fun _ => fresh.2.1) (fresh.2.2 node.id rfl houses)
  have narrows : Narrows ((setting.hold (some scope)).settle (some scope)) setting :=
    (narrows_settle _ _).trans (narrows_hold setting (some scope))
  have inner := (once.sublist (inside.trans (Tree.parts_elements_sublist node))).behind splits.apart
    evolves
  have both := Splits.ofParts (.refl _) inner.distinct
  have parameters : Keeps (((setting.hold (some scope)).settle (some scope)).using
      (usesOf (Tree.parts node.third.present))) surroundings after none
      (node.third.present.forM (bindTemplateParameter scope)) fun _ _ _ => True := by
    refine keeps_forM (still.using _) trivial fun parameter member later left _ _ ready => ?_
    exact keeps_bindTemplateParameter ready fun part among =>
      mem_usesOf ((Tree.preorder_sublist_of_mem member).subset among) rfl
  refine .bindIn firstly narrows both (.only parameters) ?_
  intro _ later left still ready further next _
  obtain rfl : left = none := next.elim id id
  have awaiting := still.awaitNew (isHeader.grows further.grows)
    (begun.unknown fresh.1)
  have whole := (evolves.widen (narrows_using (.refl setting) splits.inFront)).trans
    (further.widen (narrows_using narrows (both.inFront.trans splits.inBack)))
  have still := further.notes node.id fun used =>
    Set.disjoint_left.mp splits.apart rfl (both.inFront used)
  have under := under.inner apart whole (still.trans scopeOfNode) around stays fun route chain =>
    (further.ways firstly).chain (.inr (.inl rfl)) .refl chain
  refine (lasts_withHeader (well (node.nth 4) firstly awaiting
    ((inner.sublist (List.sublist_append_right ..)).behind both.apart further) under ?_)).weaken
    (fun _ _ _ holds => holds) fun _ _ traced _ _ _ => traced_template is traced
  have among := List.sublist_append_right (Tree.parts node.third.present) (node.nth 4).preorder
  refine List.forall_mem_cons.mpr ⟨fun member => ?_, fun header member inner => ?_⟩
  · exact Set.disjoint_left.mp splits.apart rfl ((among.map Tree.id).subset member)
  · exact apart header member
      (((among.trans (inside.trans (Tree.parts_elements_sublist node))).map Tree.id).subset inner)

end Binding
end CppNames
