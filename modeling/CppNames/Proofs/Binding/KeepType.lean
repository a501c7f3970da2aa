import CppNames.Binding.Type
import CppNames.Proofs.Binding.KeepState

namespace CppNames
namespace Binding

/-!
# Namespaces, classes and enumerations keep tables in form

Every construct enters the scope that is noted for it, or else a new one, and visits what lies
inside.  What is known of a visit is only that it keeps the table in form wherever it begins, so
the same lemmas serve for trees of any size.
-/

open Table

/-- A visit that keeps tables in form. -/
def VisitsInForm (visit : Visit) : Prop :=
  ∀ {setting surroundings table pending} (node : Node),
    Ready setting surroundings table pending → Suits setting table node.preorder →
    Keeps setting surroundings table pending (visit node) fun _ _ _ => True

variable {setting : Setting} {surroundings : Surroundings} {table : Table}
  {pending : Option ScopeId} {visit : Visit}

/-- A header that was taken for the declaration at hand. -/
def Taken (setting : Setting) (table : Table) (pending header : Option ScopeId) : Prop :=
  ∀ scope, header = some scope → pending = none ∧ IsHeader table scope ∧
    (setting.first = true → scope ∉ setting.held)

theorem Taken.later {small : Setting} {before after : Table} {left header : Option ScopeId}
    (taken : Taken setting before pending header) (grows : before.Grows after)
    (first : small.first = setting.first) (held : small.held = setting.held)
    (next : left = none ∨ left = pending) : Taken small after left header := by
  intro scope same
  rcases taken scope same with ⟨nothing, isHeader, apart⟩
  refine ⟨next.elim id fun same => same.trans nothing, isHeader.grows grows, ?_⟩
  rw [first, held]
  exact apart

theorem Taken.none : Taken setting table pending none := fun _ => nofun

/-- What is entered in place of a header goes into the header, or into an open scope. -/
theorem Taken.outside {header : Option ScopeId} (taken : Taken setting table pending header)
    (formed : Formed setting pending table) {scope : ScopeId} (isOpen : table.Open scope) :
    table.HasScope (header.getD scope) ∧ Outside setting pending (header.getD scope) := by
  cases header with
  | none => exact ⟨isOpen.hasScope, formed.outside_of_isOpen isOpen⟩
  | some header =>
    rcases taken header rfl with ⟨rfl, ⟨declaration, has⟩, apart⟩
    exact ⟨has.hasScope, fun first => ⟨apart first, nofun⟩⟩

/-- Some visits, one for each of some nodes. -/
theorem keeps_visits {items : List Node} {step : Node → Bind PUnit} {header : Option ScopeId}
    (ready : Ready setting surroundings table pending)
    (suits : Suits setting table (Tree.parts items))
    (taken : Taken setting table pending header)
    (all : ∀ item ∈ items, ∀ {small later left}, small.content = setting.content →
      small.settled = setting.settled → table.Grows later → Ready small surroundings later left →
      Suits small later item.preorder → Taken small later left header →
      Keeps small surroundings later left (step item) fun _ _ _ => True) :
    Keeps setting surroundings table pending (items.forM step) fun _ _ _ => True := by
  induction items generalizing table pending with
  | nil => exact .pure ready trivial
  | cons first rest ih =>
    rw [Tree.parts_cons] at suits
    have front : Keeps (setting.only first.preorder) surroundings table pending (step first)
        fun _ _ _ => True :=
      all first (List.mem_cons_self ..) rfl rfl (.refl table) (ready.only _) suits.front
        (taken.later (.refl table) rfl rfl (.inr rfl))
    refine .inFront suits front fun _ after left ready suits grows next _ => ?_
    refine ih ready suits (taken.later grows rfl rfl next) ?_
    intro item member small later left same settled growsOn
    exact all item (List.mem_cons_of_mem _ member) same settled (grows.trans growsOn)

theorem keeps_visitElements (well : VisitsInForm visit)
    (ready : Ready setting surroundings table pending) {node : Node}
    (suits : Suits setting table node.preorder) :
    Keeps setting surroundings table pending (visitElements visit node) fun _ _ _ => True :=
  keeps_visits ready (suits.sublist (Tree.parts_present_sublist node)) .none
    fun item _ _ _ _ _ _ _ ready suits _ => well item ready suits

/-- A node that spells a construct may have a scope for it and declare something. -/
theorem Suits.of_isA {parts : List Node} (suits : Suits setting table parts) {node : Node}
    {construct : Construct} (is : node.isA construct = true) (member : node ∈ parts) :
    setting.content node.id = construct ∧ node.id ∈ setting.noted ∧
      node.id ∈ setting.declaring :=
  ⟨suits.spells node member construct (eq_of_beq is), suits.noted node member,
    suits.declaring node member⟩

theorem mem_preorder_of_isA {node : Node} {construct : Construct}
    (is : node.isA construct = true) : node ∈ node.preorder := by
  refine Tree.mem_preorder_self ?_
  cases node with
  | nil => cases is
  | _ => rfl

theorem Suits.self {node : Node} (suits : Suits setting table node.preorder)
    {construct : Construct} (is : node.isA construct = true) :
    setting.content node.id = construct ∧ node.id ∈ setting.noted ∧
      node.id ∈ setting.declaring :=
  suits.of_isA is (mem_preorder_of_isA is)

theorem Suits.insideSelf {node : Node} (suits : Suits setting table node.preorder)
    {construct : Construct} (is : node.isA construct = true) :
    setting.inside → node.id ∈ setting.inner :=
  fun stands => suits.inside stands node (mem_preorder_of_isA is)

theorem Suits.nth {node : Node} (suits : Suits setting table node.preorder) (position : Nat) :
    Suits setting table (node.nth position).preorder :=
  suits.sublist ((Tree.preorder_nth_sublist node position).trans (Tree.parts_elements_sublist node))

theorem Formed.hasShape_defines (formed : Formed setting pending table) {id : SymbolId}
    {scope : ScopeId} {shape : Region.Shape} {symbol : Symbol}
    (read : table.symbol id = .ok symbol) (body : symbol.kind.family.body? = some shape)
    (defines : symbol.defines = some scope) : table.HasShape scope shape := by
  rcases (formed.consistent.symbols id symbol read).defines scope defines with
    ⟨other, again, has⟩
  rw [body] at again
  cases again
  exact has

/-! ## Namespaces -/

section

variable {node : Tree.NodeId} {name : Encoding} {outer : ScopeId}

theorem isFresh_namespaceBody : IsFresh table (.namespaceBody name [node] []) :=
  ⟨rfl, rfl, fun _ member => nomatch member⟩

/-- A symbol is a namespace with a given scope. -/
def Opens (table : Table) (id : SymbolId) (scope : ScopeId) : Prop :=
  ∃ symbol, table.symbol id = .ok symbol ∧ symbol.kind = .namespaceName ∧
    symbol.defines = some scope

theorem isNamespace_of_body {kind : SymbolKind} (body : kind.family.body? = some .namespaceBody) :
    kind = .namespaceName := by
  cases kind <;> first | rfl | cases body

theorem keeps_fragmentScope (ready : Ready setting surroundings table pending)
    (is : setting.content node = .namespaceSpec) (noted : node ∈ setting.noted)
    (isOpen : table.Open outer) (houses : Houses setting table outer node) {id : SymbolId}
    (may : MayHave table id .namespaceBody) :
    Keeps setting surroundings table pending (fragmentScope node name outer id)
      fun scope after left => pending = left ∧ after.HasShape scope .namespaceBody ∧
        Opens after id scope := by
  have bears : (setting.content node).Bears node .namespaceBody := by
    rw [is]
    rfl
  rcases may with ⟨symbol, readSymbol, body⟩
  have kind := isNamespace_of_body body
  refine .behind ready (reads_ask _) fun known readKnown => ?_
  rw [readSymbol] at readKnown
  cases readKnown
  split
  · next scope defines =>
    have has := ready.formed.hasShape_defines readSymbol body defines
    have fragment := ready.formed.addFragment scope node
    have noted := fragment.1.setNodeScope (fragment.2.grows.hasShape has) bears (.inl noted)
    refine (keeps_change ready ⟨noted.1, fragment.2.trans noted.2⟩).bind ?_
    rintro _ after left ready evolves _ ⟨rfl, rfl⟩
    exact .pure ready ⟨rfl, evolves.grows.hasShape has, symbol, readSymbol, kind, defines⟩
  · next defines =>
    refine (keeps_createScope ready isOpen.hasScope isFresh_namespaceBody bears noted
      (ready.formed.outside_of_isOpen isOpen) fun _ => houses).bind ?_
    rintro scope after left ready evolves _ ⟨rfl, has, _, _, _, symbols⟩
    rw [← symbols] at readSymbol
    refine .bind (keeps_change ready (ready.formed.setDefines has fun later readLater => ?_)) ?_
    · rw [readSymbol] at readLater
      cases readLater
      exact ⟨body, fun _ => defines⟩
    · rintro _ last left ready evolves _ ⟨rfl, rfl⟩
      refine .pure ready
        ⟨rfl, evolves.grows.hasShape has, { symbol with defines := some scope }, ?_, kind, rfl⟩
      rw [symbol_modifySymbol, if_pos rfl, readSymbol]
      rfl

theorem HasNoted.hasShape {id : ScopeId} {shape : Region.Shape} {construct : Construct}
    (has : HasNoted setting table node id) (is : setting.content node = construct)
    (only : ∀ other, construct.Bears node other → other = shape) : table.HasShape id shape := by
  rcases has with ⟨other, hasOther, bears⟩
  rw [is] at bears
  exact only other bears ▸ hasOther

theorem keeps_refusedScope (ready : Ready setting surroundings table pending)
    (is : setting.content node = .namespaceSpec) (noted : node ∈ setting.noted)
    (isOpen : table.Open outer) (houses : Houses setting table outer node)
    (previous : SymbolId) :
    Keeps setting surroundings table pending (refusedScope node name outer previous)
      fun scope after left => pending = left ∧ after.HasShape scope .namespaceBody := by
  refine .behind ready (reads_ask _) fun symbol readSymbol => ?_
  split
  · next scope known =>
    split at known
    · next isNamespace =>
      refine .pure ready ⟨rfl, ready.formed.hasShape_defines readSymbol ?_ known⟩
      rw [isNamespace]
      rfl
    · cases known
  · refine (keeps_scopeFor ready isOpen.hasScope isFresh_namespaceBody ?_ noted
      (ready.formed.outside_of_isOpen isOpen) fun _ => houses).weaken ?_
    · rw [is]
      rfl
    · rintro scope after left ⟨same, has, _⟩
      exact ⟨same, has.hasShape is fun _ bears => bears⟩

end

theorem keeps_namespaceScope (ready : Ready setting surroundings table pending) {node : Node}
    {name : Encoding} (is : setting.content node.id = .namespaceSpec)
    (noted : node.id ∈ setting.noted) (declaring : node.id ∈ setting.declaring)
    (inside : setting.inside → node.id ∈ setting.inner) :
    Keeps setting surroundings table pending (namespaceScope node name)
      fun scope after left => pending = left ∧ after.HasShape scope .namespaceBody := by
  refine .behind ready reads_current fun outer here => ?_
  subst here
  refine .behind ready (looks_answer _) fun span _ => ?_
  refine .bind (keeps_performDeclare ready declaring nofun) ?_
  rintro declared after left ready evolves _ ⟨rfl, done⟩
  cases declared with
  | ok id =>
    exact (keeps_fragmentScope ready is noted ready.current (ready.houses inside)
      (Declares.mayHave done rfl)).weaken fun _ _ _ holds => ⟨holds.1, holds.2.1⟩
  | error refusal =>
    exact .behind ready (looks_answer _) fun text _ =>
      .behind ready (looks_reportRefusal _ _ _) fun _ _ =>
        keeps_refusedScope ready is noted ready.current (ready.houses inside) refusal.previous

theorem keeps_addNominated (ready : Ready setting surroundings table pending)
    {scope target : ScopeId} (has : table.HasShape target .namespaceBody) :
    Keeps setting surroundings table pending (discard (perform (·.addNominated scope target)))
      fun _ _ left => pending = left :=
  .discard (keeps_perform ready fun _ _ done => ready.formed.addNominated has done)
    fun _ _ _ done => done.2

theorem keeps_bindNamespace (well : VisitsInForm visit)
    (ready : Ready setting surroundings table pending) {node : Node}
    (suits : Suits setting table node.preorder) (isSpec : node.isA .namespaceSpec = true) :
    Keeps setting surroundings table pending (bindNamespace visit node) fun _ _ _ => True := by
  rcases suits.self isSpec with ⟨is, noted, declaring⟩
  unfold bindNamespace
  dsimp only
  split
  · refine .plainly suits (keeps_namespaceScope ready.plain is ⟨noted, by rw [is]; decide⟩ declaring
      (suits.insideSelf isSpec)) ?_
    rintro scope after left ready suits grows ⟨rfl, has⟩
    have inside : ∀ {later}, Ready setting surroundings later pending →
        Suits setting later node.preorder → after.Grows later →
        Keeps setting surroundings later pending
          (inScope scope (visitElements visit node.third)) fun _ _ _ => True := by
      intro later ready suits grows
      have members : later.HasMembers scope := .inl (grows.hasShape has)
      exact .inScope ready (keeps_visitElements well (ready.withMembers members) (suits.nth 2))
    refine .annotating ready noted ?_
    split
    · refine .behind ready reads_current fun outer _ => ?_
      refine .plainly suits (keeps_addNominated ready.plain has) ?_
      rintro _ later left ready suits grows rfl
      exact inside ready suits grows
    · exact inside ready suits (.refl after)
  · exact .looks ready (reads_malformed _ _ _).looks fun _ => trivial

/-! ## Classes -/

theorem looks_namesOnly (specifier : Node) (name : Encoding) (span : Option Span) :
    Looks (namesOnly specifier name span) := by
  refine .after reads_site.looks fun here => .after (looks_answer _) fun looked => ?_
  cases looked with
  | error error => exact .after (looks_reportLookup _ _) fun _ => looks_pure _
  | ok found =>
    dsimp only
    split
    · refine .after (looks_ask _) fun previous => ?_
      cases previous with
      | none => exact looks_pure _
      | some id =>
        exact .after (looks_answer _) fun _ =>
          .after (looks_reportRefusal _ _ _) fun _ => looks_pure _
    · split
      · exact .after (looks_answer _) fun _ => .after (looks_report _ _ _) fun _ => looks_pure _
      · exact looks_pure _

/-- A declared class belongs to a scope that is no template header. -/
structure DeclaresClass (table : Table) (declared : DeclaredClass) : Prop where
  isOpen : table.Open declared.scope
  mayHave : ∀ id, declared.symbol = some id → MayHave table id .classBody

theorem DeclaresClass.grows {before after : Table} {declared : DeclaredClass}
    (declares : DeclaresClass before declared) (grows : before.Grows after) :
    DeclaresClass after declared where
  isOpen := grows.isOpen declares.isOpen
  mayHave id same := (declares.mayHave id same).grows grows

theorem DeclaresClass.answers {declared : DeclaredClass} (declares : DeclaresClass table declared) :
    Answers (some .classBody) table declared.symbol := by
  rintro id same shape is
  cases is
  exact declares.mayHave id same

/-- A class that could not be declared has no symbol. -/
theorem declaresClass_none {scope : ScopeId} (isOpen : table.Open scope) (key : Encoding) :
    DeclaresClass table ⟨none, scope, key⟩ where
  isOpen := isOpen
  mayHave _ same := by cases same

/-- Declares a class in the scope that its name is meant for. -/
def declareClassIn (specifier : Node) (kind : SymbolKind) (span : Option Span) (scope : ScopeId)
    (key : Encoding) : Bind DeclaredClass := do
  match ← perform (·.declare scope (Symbol.ofDeclaration key kind key scope specifier.id span)) with
  | .ok id => return ⟨some id, scope, key⟩
  | .error refusal =>
    reportRefusal refusal (← answer key.shown) span
    return ⟨none, scope, key⟩

theorem keeps_declareClassIn (ready : Ready setting surroundings table pending) {specifier : Node}
    {kind : SymbolKind} {span : Option Span} {scope : ScopeId} {key : Encoding}
    (body : kind.family.body? = some .classBody) (declaring : specifier.id ∈ setting.declaring)
    (isOpen : table.Open scope)
    (place : table.HasMembers scope ∨ scope = surroundings.current) :
    Keeps setting surroundings table pending (declareClassIn specifier kind span scope key)
      fun declared after left => (pending = left ∧ DeclaresClass after declared) ∧
        (after.HasMembers declared.scope ∨ declared.scope = surroundings.current) := by
  have plain : ∀ target, kind = .typedefName (some target) → table.HasSymbol target := by
    rintro target rfl
    cases body
  refine .bind (keeps_performDeclare ready declaring plain) ?_
  rintro declared after left ready evolves _ ⟨rfl, done⟩
  have isOpen := evolves.grows.isOpen isOpen
  have place := place.imp_left fun has => has.grows evolves.grows
  cases declared with
  | ok id =>
    refine .pure ready ⟨⟨rfl, isOpen, fun other same => ?_⟩, place⟩
    cases same
    exact Declares.mayHave done body
  | error refusal =>
    exact .behind ready (looks_answer _) fun _ _ =>
      .behind ready (looks_reportRefusal _ _ _) fun _ _ =>
        .pure ready ⟨⟨rfl, declaresClass_none isOpen key⟩, place⟩

/-- A class is declared in a namespace or a class, or else where binding is. -/
theorem keeps_declareClass_place (ready : Ready setting surroundings table pending)
    {specifier : Node} {name : Encoding} {kind : SymbolKind} {span : Option Span}
    (body : kind.family.body? = some .classBody) (declaring : specifier.id ∈ setting.declaring) :
    Keeps setting surroundings table pending (declareClass specifier name kind span)
      fun declared after left => (pending = left ∧ DeclaresClass after declared) ∧
        (after.HasMembers declared.scope ∨ declared.scope = surroundings.current) := by
  have inTarget {scope : ScopeId} {key : Encoding} (isOpen : table.Open scope)
      (place : table.HasMembers scope ∨ scope = surroundings.current) :
      Keeps setting surroundings table pending (declareClassIn specifier kind span scope key)
        fun declared after left => (pending = left ∧ DeclaresClass after declared) ∧
          (after.HasMembers declared.scope ∨ declared.scope = surroundings.current) :=
    keeps_declareClassIn ready body declaring isOpen place
  unfold declareClass
  refine .behind ready reads_current fun scope here => ?_
  subst here
  dsimp only
  split
  · refine .behind ready (reads_declarationTarget name span) fun target denotes => ?_
    cases target with
    | none =>
      exact .behind ready (looks_answer _) fun _ _ =>
        .pure ready ⟨⟨rfl, declaresClass_none ready.current _⟩, .inr rfl⟩
    | some found =>
      have members := denotes ready.formed found rfl
      exact inTarget members.isOpen (.inl members)
  · exact inTarget ready.current (.inr rfl)

theorem keeps_declareClass (ready : Ready setting surroundings table pending) {specifier : Node}
    {name : Encoding} {kind : SymbolKind} {span : Option Span}
    (body : kind.family.body? = some .classBody) (declaring : specifier.id ∈ setting.declaring) :
    Keeps setting surroundings table pending (declareClass specifier name kind span)
      fun declared after left => pending = left ∧ DeclaresClass after declared :=
  (keeps_declareClass_place ready body declaring).weaken fun _ _ _ holds => holds.1

theorem keeps_bindBase (ready : Ready setting surroundings table pending) (scope source : ScopeId)
    (base : Node) :
    Keeps setting surroundings table pending (bindBase scope source base) fun _ _ left =>
      pending = left := by
  unfold bindBase
  dsimp only
  split
  · exact .pure ready rfl
  · refine .behind ready (looks_answer _) fun span _ =>
      .behind ready (looks_ask _) fun denoted _ => ?_
    split
    · next target =>
      refine .behind ready (reads_ask _) fun found read => ?_
      split
      · next isClass =>
        have has : table.HasShape target .classBody :=
          ⟨found, read, (Region.isClass_iff _).mp isClass⟩
        exact .discard (keeps_perform ready fun _ _ done => ready.formed.addBase has done)
          fun _ _ _ done => done.2
      · exact .behind ready (looks_answer _) fun _ _ =>
          .looks ready (looks_report _ _ _) fun _ => rfl
    · exact .pure ready rfl
    · exact .looks ready (looks_reportLookup _ _) fun _ => rfl

theorem keeps_bindBases (ready : Ready setting surroundings table pending)
    (scope source : ScopeId) (bases : Node) :
    Keeps setting surroundings table pending (bindBases scope source bases) fun _ _ left =>
      pending = left :=
  keeps_forM ready rfl fun base _ _ _ _ same ready =>
    (keeps_bindBase ready scope source base).weaken fun _ _ _ next => same.trans next

/-- Gives a symbol, if there is one, the scope that it has. -/
def defineScope (symbol : Option SymbolId) (scope : ScopeId) : Bind Unit :=
  match symbol with
  | some id => setDefines id scope
  | none => pure ()

theorem keeps_defineScope (ready : Ready setting surroundings table pending)
    {symbol : Option SymbolId} {scope : ScopeId} {shape : Region.Shape}
    (answers : Answers (some shape) table symbol) (has : table.HasShape scope shape)
    (other : shape ≠ .namespaceBody) :
    Keeps setting surroundings table pending (defineScope symbol scope) fun _ _ left =>
      pending = left := by
  cases symbol with
  | none => exact .pure ready rfl
  | some id => exact keeps_setDefines ready (answers id rfl shape rfl) has other

theorem bindClassBody_eq (visit : Visit) (specifier body : Node) (header : Option ScopeId)
    (declared : DeclaredClass) :
    bindClassBody visit specifier body header declared = (do
      let outer := header.getD declared.scope
      let scope ← scopeFor specifier.id outer (.classBody declared.key specifier.id [])
      annotate specifier scope
      bindBases scope outer specifier.third
      defineScope declared.symbol scope
      inScope scope (visitElements visit body)) := by
  unfold bindClassBody
  cases declared.symbol <;> simp only [defineScope, pure_bind]

/-- A header, if there is one, that stays where it is. -/
def Settles (setting : Setting) (header : Option ScopeId) : Prop :=
  ∀ scope, header = some scope → scope ∈ setting.settled

theorem Settles.none : Settles setting none := fun _ => nofun

/-- What is entered in place of a header that stays goes into the header, which leads out. -/
theorem Settles.houses {header : Option ScopeId} (settles : Settles setting header)
    (formed : Formed setting pending table) {scope : ScopeId} {node : Tree.NodeId}
    (houses : Houses setting table scope node) :
    Houses setting table (header.getD scope) node := by
  cases header with
  | none => exact houses
  | some header =>
    exact fun first => .inl ((formed.housed first).headers header (.inl (settles header rfl)))

theorem keeps_bindClassBody (well : VisitsInForm visit)
    (ready : Ready setting surroundings table pending) {specifier : Node}
    {header : Option ScopeId} {declared : DeclaredClass}
    (suits : Suits setting table specifier.preorder) (isSpec : specifier.isA .classSpec = true)
    (taken : Taken setting table pending header) (settles : Settles setting header)
    (declares : DeclaresClass table declared)
    (houses : Houses setting table declared.scope specifier.id) :
    Keeps setting surroundings table pending
      (bindClassBody visit specifier (specifier.nth 3) header declared) fun _ _ _ => True := by
  rcases suits.self isSpec with ⟨is, noted, _⟩
  rcases taken.outside ready.formed declares.isOpen with ⟨inside, outside⟩
  rw [bindClassBody_eq]
  refine .plainly suits (keeps_scopeFor ready.plain inside ?_ ?_ ⟨noted, ?_⟩ outside
    fun _ => settles.houses ready.formed houses) ?_
  · exact ⟨rfl, rfl, fun _ member => nomatch member⟩
  · change Construct.Bears _ (setting.content specifier.id) .classBody
    rw [is]
    rfl
  · rw [is]
    decide
  rintro scope after left ready suits grows ⟨rfl, entered, _⟩
  have has : after.HasShape scope .classBody := entered.hasShape is fun _ bears => bears
  have declares := declares.grows grows
  refine .annotating ready noted ?_
  refine .plainly suits (keeps_bindBases ready.plain _ _ _) ?_
  intro _ bound left ready suits grows _
  refine .plainly suits (keeps_defineScope ready.plain (declares.grows grows).answers
    (grows.hasShape has) nofun) ?_
  rintro _ later left ready suits growsOn rfl
  have members : later.HasMembers scope := .inr ((grows.trans growsOn).hasShape has)
  exact .inScope ready (keeps_visitElements well (ready.withMembers members) (suits.nth 3))

theorem keeps_bindClass (well : VisitsInForm visit)
    (ready : Ready setting surroundings table pending) {specifier : Node} {use : ClassUse}
    {header : Option ScopeId} (suits : Suits setting table specifier.preorder)
    (isSpec : specifier.isA .classSpec = true) (taken : Taken setting table pending header)
    (settles : Settles setting header) :
    Keeps setting surroundings table pending (bindClass visit specifier use header)
      fun _ _ _ => True := by
  rcases suits.self isSpec with ⟨_, _, declaring⟩
  have declareBind : ∀ {name : Encoding} {kind : SymbolKind} {span : Option Span} {defined : Bool},
      kind.family.body? = some .classBody →
      Keeps setting surroundings table pending
        (do
          let declared ← declareClass specifier name kind span
          if defined then bindClassBody visit specifier (specifier.nth 3) header declared)
        fun _ _ _ => True := by
    intro name kind span defined body
    refine .plainly suits (keeps_declareClass_place ready.plain body declaring) ?_
    rintro declared after left ready suits grows ⟨⟨rfl, declares⟩, place⟩
    have houses : Houses setting after declared.scope specifier.id := by
      rcases place with members | same
      · exact fun _ => .inl (.members members)
      · rw [same]
        exact ready.houses (suits.insideSelf isSpec)
    split
    · exact keeps_bindClassBody well ready suits isSpec
        (taken.later grows rfl rfl (.inr rfl)) settles declares houses
    · exact .pure ready trivial
  unfold bindClass
  dsimp only
  split
  · exact .behind ready (reads_malformed _ _ _) fun _ impossible => impossible.elim
  · split
    · exact .looks ready (reads_malformed _ _ _).looks fun _ => trivial
    · refine .behind ready (looks_answer _) fun span _ => ?_
      have body : ∀ {defined : Bool}, (if header.isSome = true then SymbolKind.classTemplate defined
          else .classType defined).family.body? = some .classBody := by
        intro defined
        cases header <;> rfl
      split
      · refine .behind ready (looks_namesOnly _ _ _) fun done _ => ?_
        split
        · exact declareBind body
        · exact .pure ready trivial
      · refine .behind ready (looks_pure _) fun done _ => ?_
        split
        · exact declareBind body
        · exact .pure ready trivial

/-- A class without a body has no scope. -/
theorem keeps_bindClass_of_isNil (ready : Ready setting surroundings table pending)
    {specifier : Node} {use : ClassUse} {header : Option ScopeId}
    (bodyless : (specifier.nth 3).isNil = true) (declaring : specifier.id ∈ setting.declaring) :
    Keeps setting surroundings table pending (bindClass visit specifier use header)
      fun _ _ left => pending = left := by
  have declares : ∀ {name : Encoding} {span : Option Span}, Keeps setting surroundings table pending
      (do
        let declared ← declareClass specifier name
          (if header.isSome = true then .classTemplate false else .classType false) span
        if false = true then bindClassBody visit specifier (specifier.nth 3) header declared)
      fun _ _ left => pending = left := by
    intro name span
    have body : (if header.isSome = true then SymbolKind.classTemplate false
        else .classType false).family.body? = some .classBody := by
      cases header <;> rfl
    refine .bind (keeps_declareClass ready body declaring) ?_
    rintro declared after left ready _ _ ⟨rfl, _⟩
    exact .pure ready rfl
  unfold bindClass
  simp only [bodyless, Bool.not_true, Bool.false_and, Bool.true_and]
  split
  · next impossible => cases impossible
  · split
    · exact .looks ready (reads_malformed _ _ _).looks fun _ => rfl
    · refine .behind ready (looks_answer _) fun span _ => ?_
      split
      · refine .behind ready (looks_namesOnly _ _ _) fun done _ => ?_
        split
        · exact declares
        · exact .pure ready rfl
      · refine .behind ready (looks_pure _) fun done _ => ?_
        split
        · exact declares
        · exact .pure ready rfl

/-! ## Enumerations -/

theorem looks_enumeratorValue (expression : Node) : Looks (enumeratorValue expression) := by
  refine .after reads_site.looks fun here => .after looks_read fun surroundings =>
    .after (looks_answer _) fun value => ?_
  dsimp only
  split
  · exact .after (looks_answer _) fun _ => .after (looks_report _ _ _) fun _ => looks_pure _
  · exact looks_pure _

theorem looks_enumVisible (name : Encoding) : Looks (enumVisible name) :=
  .after reads_site.looks fun _ => .after (looks_answer _) fun _ => looks_pure _

theorem enumeratorParts_sublist {item named expression : Node}
    (parts : enumeratorParts? item = some (named, expression)) :
    named.preorder.Sublist item.preorder ∧ named.isNil = false := by
  unfold enumeratorParts? at parts
  split at parts
  · next isToken =>
    cases parts
    refine ⟨.refl _, ?_⟩
    cases item with
    | nil => cases isToken
    | _ => rfl
  · split at parts
    · next isList =>
      cases parts
      have both := Bool.and_eq_true_iff.mp isList
      refine ⟨(Tree.preorder_nth_sublist item 0).trans (Tree.parts_elements_sublist item), ?_⟩
      exact Bool.eq_false_iff.mpr fun absent => by simp [absent] at both
    · cases parts

theorem keeps_bindEnumerator (ready : Ready setting surroundings table pending)
    {type : Encoding} {next : Option Int64} {item : Node}
    (declaring : ∀ part ∈ item.preorder, part.id ∈ setting.declaring) :
    Keeps setting surroundings table pending (bindEnumerator type next item)
      fun _ _ _ => True := by
  unfold bindEnumerator
  split
  · exact .pure ready trivial
  · next named expression parts =>
    rcases enumeratorParts_sublist parts with ⟨sublist, there⟩
    have allowed := declaring named (sublist.subset (Tree.mem_preorder_self there))
    have declares : ∀ value : Option Int64, Keeps setting surroundings table pending
        (do
          let scope ← current
          declareQuietly scope (.ofDeclaration (.simpleName named.text) (.enumerator value) type
            scope named.id (named.token?.map (·.span)))
          return value.bind successor?)
        fun _ _ _ => True := by
      intro value
      refine .behind ready reads_current fun scope _ => ?_
      refine .bind (keeps_declareQuietly ready allowed nofun) ?_
      intro _ after left ready _ _ _
      exact .pure ready trivial
    dsimp only
    split
    · exact .behind ready (looks_pure _) fun value _ => declares value
    · exact .behind ready (looks_enumeratorValue _) fun value _ => declares value

/-- An enumeration is in order if its enumerators are.  What they keep of the pending scope, the
whole keeps. -/
theorem keeps_bindEnum_of (ready : Ready setting surroundings table pending) {specifier : Node}
    (declaring : specifier.id ∈ setting.declaring) {kept : Option ScopeId → Prop}
    (begins : kept pending)
    (enumerators : ∀ {type later left}, kept left → Ready setting surroundings later left →
      Keeps setting surroundings later left
        (discard (specifier.third.second.present.foldlM (bindEnumerator type) (some 0)))
        fun _ _ left => kept left) :
    Keeps setting surroundings table pending (bindEnum specifier) fun _ _ left => kept left := by
  have declares : ∀ {name : Encoding} {span : Option Span},
      Keeps setting surroundings table pending
        (do
          if !specifier.second.isNil then
            let scope ← current
            declareQuietly scope (.ofDeclaration name .enumType name scope specifier.id span)
          discard (specifier.third.second.present.foldlM (bindEnumerator name) (some 0)))
        fun _ _ left => kept left := by
    intro name span
    split
    · refine .behind ready reads_current fun scope _ => ?_
      refine .bind (keeps_declareQuietly ready declaring nofun) ?_
      rintro _ after left ready _ _ rfl
      exact enumerators begins ready
    · exact enumerators begins ready
  unfold bindEnum
  dsimp only
  split
  · exact .behind ready (reads_malformed _ _ _) fun _ impossible => impossible.elim
  · split
    · exact .looks ready (reads_malformed _ _ _).looks fun _ => begins
    · refine .behind ready (looks_answer _) fun span _ => ?_
      split
      · refine .behind ready (looks_enumVisible _) fun known _ => ?_
        split
        · exact declares
        · exact .pure ready begins
      · refine .behind ready (looks_pure _) fun known _ => ?_
        split
        · exact declares
        · exact .pure ready begins

theorem keeps_bindEnum (ready : Ready setting surroundings table pending) {specifier : Node}
    (suits : Suits setting table specifier.preorder) (isSpec : specifier.isA .enumSpec = true) :
    Keeps setting surroundings table pending (bindEnum specifier) fun _ _ _ => True := by
  rcases suits.self isSpec with ⟨_, _, declaring⟩
  refine keeps_bindEnum_of ready declaring trivial fun _ ready => ?_
  refine .discard (keeps_foldlM ready ?_ (some 0)) fun _ _ _ _ => trivial
  intro item member value later left ready
  refine keeps_bindEnumerator ready fun part among => suits.declaring part ?_
  have inItems := (Tree.preorder_sublist_of_mem member).trans
    (Tree.parts_present_sublist specifier.third.second)
  have inBody := (Tree.preorder_nth_sublist specifier.third 1).trans
    (Tree.parts_elements_sublist specifier.third)
  have inSpecifier := (Tree.preorder_nth_sublist specifier 2).trans
    (Tree.parts_elements_sublist specifier)
  exact (inItems.trans (inBody.trans inSpecifier)).subset among

/-- An enumeration without a body has no enumerators. -/
theorem keeps_bindEnum_of_isNil (ready : Ready setting surroundings table pending)
    {specifier : Node} (bodyless : specifier.third.isNil = true)
    (declaring : specifier.id ∈ setting.declaring) :
    Keeps setting surroundings table pending (bindEnum specifier) fun _ _ left =>
      pending = left := by
  refine keeps_bindEnum_of ready declaring rfl ?_
  rintro type later _ rfl ready
  rw [Tree.eq_nil_of_isNil bodyless]
  exact .discard (.pure ready rfl) fun _ _ _ same => same

/-! ## Type specifiers -/

theorem keeps_bindSpecifier (well : VisitsInForm visit)
    (ready : Ready setting surroundings table pending) {specifier : Node} {use : ClassUse}
    {header : Option ScopeId} (suits : Suits setting table specifier.preorder)
    (isSpec : specifier.isA .classSpec = true ∨ specifier.isA .enumSpec = true)
    (taken : Taken setting table pending header) (settles : Settles setting header) :
    Keeps setting surroundings table pending (bindSpecifier visit use header specifier)
      fun _ _ _ => True := by
  unfold bindSpecifier
  split
  · next isEnum => exact keeps_bindEnum ready suits isEnum
  · next other => exact keeps_bindClass well ready suits (isSpec.resolve_right other) taken settles

theorem keeps_bindType (well : VisitsInForm visit)
    (ready : Ready setting surroundings table pending) {words : Node} {use : ClassUse}
    {header : Option ScopeId} (suits : Suits setting table words.preorder)
    (taken : Taken setting table pending header) (settles : Settles setting header) :
    Keeps setting surroundings table pending (bindType visit words use header)
      fun _ _ _ => True := by
  have specifiers : (Tree.parts (typeSpecifiers words)).Sublist words.preorder :=
    (Tree.parts_sublist List.filter_sublist).trans (Tree.parts_typeWords_sublist words).1
  refine keeps_visits ready (suits.sublist specifiers) taken ?_
  intro item member small later left _ settled _ ready suits taken
  have isSpec : item.isA .classSpec = true ∨ item.isA .enumSpec = true := by
    simpa using (List.mem_filter.mp member).2
  exact keeps_bindSpecifier well ready suits isSpec taken fun scope same =>
    settled ▸ settles scope same

end Binding
end CppNames
