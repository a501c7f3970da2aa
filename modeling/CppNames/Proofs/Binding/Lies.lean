import CppNames.Proofs.Binding.LastDeclaration

namespace CppNames
namespace Binding

/-!
# Where scopes lie

What is left of the binding of a declaration says where the scopes of its function and its classes
lie, given what a qualifier denotes once everything in front of it is bound.  So the run of a
declaration is taken apart at the words of its type.
-/

open Table

variable {setting : Setting} {surroundings : Surroundings} {table : Table}
  {pending : Option ScopeId} {visit checked : Visit}

theorem Spares.refl (uses : Set Use) (state : State) : Spares uses state state :=
  ⟨.refl _, .refl _, fun _ _ => rfl, fun _ _ _ member => member⟩

theorem Under.headersStand {headers : List Node} {state : State}
    (under : Under headers state.table state.header) : HeadersStand headers state := by
  rcases under with rfl | ⟨route, scopes, same, _⟩
  · exact ⟨fun _ member => absurd member List.not_mem_nil, nofun⟩
  · unfold HeadersStand
    rw [scopes, same]
    cases route <;> simp

theorem ClassLies.shorten {specifier : Node} {before : Table} {scope : ScopeId} {after : State}
    {route shorter : ScopeId → List ScopeId} (lies : ClassLies specifier before scope after route)
    (fits : ∀ target, shorter target <+: route target) :
    ClassLies specifier before scope after shorter := by
  intro is defined name named qualified target member
  rcases lies is defined name named qualified target member with ⟨body, noted, chain⟩
  exact ⟨body, noted, chain.prefix ((List.prefix_cons_inj body).mpr (fits target))⟩

/-- The classes among the words of a type lie right where these are bound. -/
theorem classesLie_of_bindType (well : VisitsLast [] visit checked) (firstly : setting.first = true)
    (ready : Ready setting surroundings table pending) {headers : List Node} {node : Node}
    {use : ClassUse} {inner : Option ScopeId} {route : List ScopeId} {before begins done final : State}
    (specified : specifiers node = typeSpecifiers node.second)
    (once : Once setting table node.second.preorder) (taken : Taken setting table pending inner)
    (settles : Settles setting inner) (same : inner = route.head?)
    (chain : List.IsChain table.Around route) (sameTable : begins.table = table)
    (sameHeader : begins.header = pending)
    (first : ∀ items, bindFirst visit node items surroundings before =
      items.forM (bindSpecifier visit use inner) surroundings begins)
    (runs : bindType visit node.second use inner surroundings begins = .ok () done)
    (spares : Spares (usesOf node.second.preorder) done final)
    (fits : ∀ target, (if node.isA .declaration && standsAlone node && before.header.isSome
      then (scopesOf before.table headers).filterMap id else [target]) <+: routeTo route target) :
    ClassesLie headers visit node surroundings before final := by
  intro index inside specifier found middle ends
  rw [specified] at inside found ends
  rw [first] at ends
  exact (lies_of_bindType well firstly ready once taken settles same chain sameTable sameHeader runs
    spares index inside specifier found middle ends).shorten fits

/-- The words of the type of a declaration are bound once its header is taken. -/
theorem bindFirst_declaration {node : Node} (is : node.isA .declaration = true) {before begins : State}
    (opens : begins = { before with header := none }) (first : List Node) :
    bindFirst visit node first surroundings before =
      first.forM (bindSpecifier visit (if standsAlone node then .forward else .elaborated)
        (if standsAlone node then before.header else none)) surroundings begins := by
  subst opens
  unfold bindFirst
  rw [if_pos is]
  cases standsAlone node <;> rfl

theorem specifiers_declaration {node : Node} (is : node.isA .declaration = true) :
    specifiers node = typeSpecifiers node.second := by
  have other : ¬ node.isA .classSpec = true := not_isA_of_spells (spells_of_isA is) nofun
  simp [specifiers, is, other]

theorem standsAlone_of_isDeclarator {node : Node} (isDeclarator : node.third.isA .declarator = true) :
    standsAlone node = false := by
  cases third : node.third with
  | nil => rw [third] at isDeclarator; cases isDeclarator
  | _ => simp [standsAlone, third, Tree.isNil]

/-- The definition of a function lies right, and so do the classes in front of it. -/
theorem liesRight_of_definition (well : VisitsLast [] visit checked) (firstly : setting.first = true)
    {headers : List Node} {node : Node} {before begins done : State}
    (opens : begins = { before with header := none })
    (held : Ready (setting.hold before.header) surroundings before.table none)
    (once : Once setting before.table node.preorder) (is : node.isA .declaration = true)
    (isDeclarator : node.third.isA .declarator = true)
    (taken : Taken setting before.table none before.header)
    (loose : ∀ scope, before.header = some scope → scope ∉ setting.settled)
    (under : Under headers before.table before.header)
    (runs : (do
      bindType visit node.second .elaborated none
      bindFunction visit node before.header : Bind Unit) surroundings begins = .ok () done) :
    LiesRight headers visit node surroundings before done := by
  have sameTable : begins.table = before.table := by rw [opens]
  have sameHeader : begins.header = none := by rw [opens]
  have narrows := narrows_hold setting before.header
  have heldFirst : (setting.hold before.header).first = true := firstly
  have onceWords := (once.nth 1).hold before.header
  have words := lasts_bindType well .elaborated heldFirst held onceWords .none .none rfl .nil
  have alone := standsAlone_of_isDeclarator isDeclarator
  have specified := specifiers_declaration is
  have first : ∀ items, bindFirst visit node items surroundings before =
      items.forM (bindSpecifier visit .elaborated none) surroundings begins := by
    intro items
    rw [bindFirst_declaration is opens, alone]
    rfl
  by_cases isBlock : node.last.isA .block = true
  · have splits := Splits.ofParts (definition_subperm is isDeclarator isBlock) once.distinct
    have behind : ∃ value middle, bindType visit node.second .elaborated none surroundings begins =
        .ok value middle ∧ Spares (usesOf node.second.preorder) middle done ∧
        Defined node surroundings.current before.header middle.table done := by
      exact Lasts.between (fun _ after _ => Defined node surroundings.current before.header after)
        firstly narrows splits words (fun _ after left still _ evolves next _ =>
          (lasts_functionBehind well firstly once is isDeclarator isBlock taken loose still evolves
            next).weaken (fun _ _ _ holds => holds) fun _ _ defined _ => defined)
        sameTable sameHeader runs (.refl _ done)
    rcases behind with ⟨_, middle, runsWords, spares, defined⟩
    refine ⟨under.headersStand, fun _ name named qualified last ends => ?_, ?_⟩
    · have whole := first (specifiers node)
      rw [specified] at whole
      rw [specified, whole.trans runsWords] at ends
      cases ends
      exact defined.lies name named qualified
    · refine classesLie_of_bindType well heldFirst held specified onceWords .none .none rfl .nil
        sameTable sameHeader first runsWords spares fun target => ?_
      simp [alone, routeTo]
  · rcases Binds.of_bind runs with ⟨_, middle, _, impossible⟩
    have stopping : Reads (bindFunction visit node before.header) fun _ _ _ => False :=
      stops_bindFunction isBlock
    have stops := stopping surroundings middle
    rw [impossible] at stops
    exact stops.2.elim

/-- The classes lie right in a declaration that defines no function. -/
theorem liesRight_of_simpleDeclaration (well : VisitsLast [] visit checked)
    (firstly : setting.first = true) {headers : List Node} {node : Node} {before begins done : State}
    {use : ClassUse} {storage : Storage} {header inner : Option ScopeId} {route : List ScopeId}
    (ready : Ready setting surroundings before.table none) (sameTable : begins.table = before.table)
    (sameHeader : begins.header = none) (once : Once setting before.table node.preorder)
    (is : node.isA .declaration = true) (isDeclarator : ¬ node.third.isA .declarator = true)
    (taken : Taken setting before.table none header)
    (takenInner : Taken setting before.table none inner) (settles : Settles setting inner)
    (same : inner = route.head?) (chain : List.IsChain before.table.Around route)
    (fits : ∀ target, (if node.isA .declaration && standsAlone node && before.header.isSome
      then (scopesOf before.table headers).filterMap id else [target]) <+: routeTo route target)
    (first : ∀ items, bindFirst visit node items surroundings before =
      items.forM (bindSpecifier visit use inner) surroundings begins)
    (under : Under headers before.table before.header)
    (runs : (do
      bindType visit node.second use inner
      (declarators node).forM (bindDeclarator visit storage header) : Bind Unit) surroundings begins =
        .ok () done) :
    LiesRight headers visit node surroundings before done := by
  have splits := Splits.ofParts (wordsAndDeclarators_sublist node).subperm once.distinct
  have words := lasts_bindType well use firstly ready (once.nth 1) takenInner settles same chain
  have behind : ∃ value middle, bindType visit node.second use inner surroundings begins =
      .ok value middle ∧ Spares (usesOf node.second.preorder) middle done ∧ True :=
    Lasts.between (fun _ _ _ _ => True) firstly (.refl setting) splits words
      (fun _ _ _ _ ready evolves next _ => (lasts_declarators well firstly once taken ready evolves
        next).weaken (fun _ _ _ holds => holds) fun _ _ _ _ => trivial)
      sameTable sameHeader runs (.refl _ done)
  rcases behind with ⟨_, middle, runsWords, spares, _⟩
  refine ⟨under.headersStand, fun defined => absurd ?_ isDeclarator, ?_⟩
  · simp only [Tree.definesFunction, Bool.and_eq_true] at defined
    exact defined.1.2
  · exact classesLie_of_bindType well firstly ready (specifiers_declaration is) (once.nth 1)
      takenInner settles same chain sameTable sameHeader first runsWords spares fits

theorem takeHeader_runs {state behind : State} {header : Option ScopeId}
    (runs : takeHeader surroundings state = .ok header behind) :
    header = state.header ∧ behind = { state with header := none } := by
  cases runs
  exact ⟨rfl, rfl⟩

theorem liesRight_of_bindDeclaration (well : VisitsLast [] visit checked)
    (firstly : setting.first = true) {headers : List Node} {node : Node} {before done : State}
    (ready : Ready setting surroundings before.table before.header)
    (once : Once setting before.table node.preorder) (is : node.isA .declaration = true)
    (under : Under headers before.table before.header)
    (runs : bindDeclaration visit node surroundings before = .ok () done) :
    LiesRight headers visit node surroundings before done := by
  have taken := ready.taken
  have loose : ∀ scope, before.header = some scope → scope ∉ setting.settled :=
    fun scope same member => (ready.formed.housed firstly).apart scope member same
  unfold bindDeclaration at runs
  rcases Binds.of_bind runs with ⟨header, begins, took, runs⟩
  rcases takeHeader_runs took with ⟨rfl, opens⟩
  have sameTable : begins.table = before.table := by rw [opens]
  have sameHeader : begins.header = none := by rw [opens]
  have first : ∀ items, bindFirst visit node items surroundings before =
      items.forM (bindSpecifier visit (if standsAlone node then .forward else .elaborated)
        (if standsAlone node then before.header else none)) surroundings begins :=
    bindFirst_declaration is opens
  dsimp only at runs
  split at runs
  · next isDeclarator =>
    exact liesRight_of_definition well firstly opens ready.holdTaken once is isDeclarator taken loose
      under runs
  · next isDeclarator =>
    split at runs
    · next alone =>
      have alone : standsAlone node = true := alone
      rcases under.route with ⟨route, same, chain, stands⟩
      have settledFirst : (setting.settle before.header).first = true := firstly
      have stays : Settles (setting.settle before.header) before.header := fun _ same => .inl same
      simp only [alone, if_true] at first
      refine liesRight_of_simpleDeclaration well settledFirst ready.settleTaken sameTable sameHeader
        (once.settle before.header) is isDeclarator taken taken stays same chain ?_ first under runs
      intro target
      rw [is, alone, same]
      cases route with
      | nil => simp [routeTo]
      | cons outer rest =>
        rcases stands with rfl | scopes
        · simp [scopesOf]
        · simp [scopes, routeTo]
    · next others =>
      have others : standsAlone node = false := Bool.eq_false_iff.mpr others
      simp only [others] at first
      refine liesRight_of_simpleDeclaration well firstly
        (ready.holdTaken.widen (narrows_hold setting before.header)) sameTable sameHeader once is
        isDeclarator taken .none .none rfl .nil (fun target => ?_) first under runs
      simp [others, routeTo]

/-! ## Type definitions -/

theorem liesRight_of_bindTypedef (well : VisitsLast [] visit checked)
    (firstly : setting.first = true) {headers : List Node} {node : Node} {before done : State}
    (ready : Ready setting surroundings before.table before.header)
    (once : Once setting before.table node.preorder) (is : node.isA .typedefDecl = true)
    (under : Under headers before.table before.header)
    (runs : bindTypedef visit node surroundings before = .ok () done) :
    LiesRight headers visit node surroundings before done := by
  have splits := Splits.ofParts (wordsAndDeclarators_sublist node).subperm once.distinct
  have spells := spells_of_isA is
  have noDeclaration : ¬ node.isA .declaration = true := not_isA_of_spells spells nofun
  have noClass : ¬ node.isA .classSpec = true := not_isA_of_spells spells nofun
  have words := lasts_bindType well .elaborated firstly ready (once.nth 1) .none .none rfl .nil
  have behind : ∃ value middle, bindType visit node.second .elaborated none surroundings before =
      .ok value middle ∧ Spares (usesOf node.second.preorder) middle done ∧ True :=
    Lasts.between (fun _ _ _ _ => True) firstly (.refl setting) splits words
      (fun _ _ _ _ ready evolves _ _ => (lasts_typedefNames firstly once ready evolves).weaken
        (fun _ _ _ holds => holds) fun _ _ _ _ => trivial) rfl rfl runs (.refl _ done)
  rcases behind with ⟨_, middle, runsWords, spares, _⟩
  refine ⟨under.headersStand, fun defined => absurd ?_ noDeclaration, ?_⟩
  · simp only [Tree.definesFunction, Bool.and_eq_true] at defined
    exact defined.1.1
  · refine classesLie_of_bindType well firstly ready (by simp [specifiers, is, noClass]) (once.nth 1)
      .none .none rfl .nil rfl rfl (fun items => ?_) runsWords spares fun target => ?_
    · unfold bindFirst
      rw [if_neg noDeclaration]
    · simp [noDeclaration, routeTo]

end Binding
end CppNames
