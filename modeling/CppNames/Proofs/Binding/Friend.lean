import CppNames.Proofs.Binding.Native

namespace CppNames

/-!
# Friends

A friend belongs to the namespace around the class that declares it.  Binding leaves out the friends
that are functions without a body, under template headers too.  But it declares a friend that is
defined in the class there, like a member, and a class that a friend declaration names is declared
there as well if no class with its name is visible.

So the names of the class stay what they are exactly where a friend is no definition and every
class that it names is visible.  Template headers before the declaration make no difference: they
add scopes of their own.
-/

namespace Binding

open Table

/-! ## Names of a scope -/

/-- A scope has some symbol under a name. -/
def HasName (owner : ScopeId) (name : Encoding) (table : Table) : Prop :=
  ∃ scope, table.scope owner = .ok scope ∧ scope.named name ≠ []

section Names

variable {owner : ScopeId} {name : Encoding} {table after : Table}

theorem HasName.grows (has : HasName owner name table) (grows : table.Grows after) :
    HasName owner name after := by
  rcases has with ⟨scope, read, some⟩
  rcases grows.scope owner scope read with ⟨later, readLater, -, names⟩
  exact ⟨later, readLater, fun none => some (List.prefix_nil.mp (none ▸ names name))⟩

/-- What has become of a declaration, the name is there. -/
theorem hasName_of_declares {symbol : Symbol} {answer : Except Refusal SymbolId}
    (declares : table.Declares owner symbol after answer) : HasName owner symbol.name after := by
  cases declares with
  | fresh found read judged =>
    refine ⟨_, scope_enter read symbol, fun none => ?_⟩
    rw [Scope.named_bind, if_pos rfl] at none
    exact List.ne_nil_of_mem (Region.mem_including.mpr (.inr rfl)) none
  | again found id read judged => exact ⟨found, read, List.ne_nil_of_mem (of_judge_again judged).1⟩
  | refused found refusal read shared => exact ⟨found, read, List.ne_nil_of_mem shared⟩

/-- A name stays. -/
theorem HasName.stable {permits : Node → Prop} : Stable permits (HasName owner name) :=
  .ofGrows (fun grows _ has => has.grows grows)
    (fun _ _ has => has)
    fun has done => has.grows (declares_of_declare done).grows

end Names

/-! ## Classes that are named -/

/-- A class specifier whose name, which has no qualifier, leads to nothing from where it stands. -/
def Unseen (table : Table) (current : ScopeId) (specifier : Node) : Prop :=
  ∃ name found, specifier.name? = some name ∧ name.isQualified = false ∧
    (⟨table, current⟩ : Site).lookup name { elaborated := true } = .ok (.ok found) ∧
    found.isEmpty = true

/-- A class specifier without a body. -/
structure NamesClass (specifier : Node) (name : Encoding) : Prop where
  isClass : specifier.isA .enumSpec = false
  bodiless : (specifier.nth 3).isNil = true
  named : specifier.name? = some name

section Classes

variable {visit : Visit} {surroundings : Surroundings} {state after : State} {specifier : Node}
  {name : Encoding} {span : Option Span}

/-- A specifier only names a class where its name leads somewhere. -/
theorem of_namesOnly {done : Bool} (names : NamesClass specifier name)
    (ran : namesOnly specifier name span surroundings state = .ok done after) :
    after.table = state.table ∧
      (done = false ↔ Unseen state.table surroundings.current specifier) := by
  have leaves := looks_namesOnly specifier name span surroundings state
  rw [ran] at leaves
  refine ⟨leaves.1.table, ?_⟩
  rcases Binds.of_bind ran with ⟨place, _, isHere, rest⟩
  cases isHere
  rcases Binds.of_bind rest with ⟨looked, middle, looks, rest⟩
  rcases of_answer looks with ⟨answered, rfl⟩
  have unseen : Unseen middle.table surroundings.current specifier ↔
      name.isQualified = false ∧ ∃ found, looked = .ok found ∧ found.isEmpty = true := by
    constructor
    · rintro ⟨_, found, called, simple, finds, empty⟩
      cases names.named.symm.trans called
      exact ⟨simple, found, Except.ok.inj (answered.symm.trans finds), empty⟩
    · rintro ⟨simple, found, rfl, empty⟩
      exact ⟨name, found, names.named, simple, answered, empty⟩
  rw [unseen]
  cases looked with
  | error error =>
    rcases Binds.of_bind rest with ⟨_, _, _, ended⟩
    cases ended
    simp
  | ok found =>
    dsimp only at rest
    cases empty : found.isEmpty with
    | true =>
      rw [empty, Bool.not_true, if_neg Bool.false_ne_true] at rest
      cases simple : name.isQualified with
      | true =>
        rw [simple, if_pos rfl] at rest
        rcases Binds.of_bind rest with ⟨_, _, _, rest⟩
        rcases Binds.of_bind rest with ⟨_, _, _, rest⟩
        cases rest
        simp
      | false =>
        rw [simple, if_neg Bool.false_ne_true] at rest
        cases rest
        simp [empty]
    | false =>
      rw [empty, Bool.not_false, if_pos rfl] at rest
      rcases Binds.of_bind rest with ⟨previous, _, _, rest⟩
      have ended : done = true := by
        cases previous with
        | none => cases rest; rfl
        | some known =>
          rcases Binds.of_bind rest with ⟨_, _, _, rest⟩
          rcases Binds.of_bind rest with ⟨_, _, _, rest⟩
          cases rest
          rfl
      simp [ended, empty]

/-- A class without a qualifier is declared in the scope at hand. -/
theorem of_declareClass_simple {kind : SymbolKind} {declared : DeclaredClass}
    (simple : name.isQualified = false)
    (ran : declareClass specifier name kind span surroundings state = .ok declared after) :
    ∃ answered, state.table.declare surroundings.current
      (.ofDeclaration name kind name surroundings.current specifier.id span) =
        .ok (after.table, answered) := by
  rcases Binds.of_bind ran with ⟨here, _, isHere, rest⟩
  cases isHere
  rw [simple, if_neg Bool.false_ne_true] at rest
  rcases Binds.of_bind rest with ⟨target, _, isTarget, rest⟩
  cases isTarget
  rcases Binds.of_bind rest with ⟨answered, middle, performs, rest⟩
  rcases of_perform performs with ⟨table, done, rfl⟩
  cases answered with
  | ok id =>
    cases rest
    exact ⟨_, done⟩
  | error refusal =>
    rcases Binds.of_bind rest with ⟨text, _, shown, rest⟩
    rcases of_answer shown with ⟨-, rfl⟩
    rcases Binds.of_bind rest with ⟨_, last, reports, ended⟩
    rcases of_reportRefusal reports with ⟨made, -, rfl⟩
    cases ended
    exact ⟨_, done⟩

/-- What becomes of a class that is named: it is declared if it is not visible. -/
theorem of_bindSpecifier_named (names : NamesClass specifier name)
    (ran : bindSpecifier visit .elaborated none specifier surroundings state = .ok () after) :
    (Unseen state.table surroundings.current specifier ∧
        HasName surroundings.current name after.table) ∨
      ¬Unseen state.table surroundings.current specifier ∧ after.table = state.table := by
  unfold bindSpecifier at ran
  rw [names.isClass, if_neg Bool.false_ne_true] at ran
  unfold bindClass at ran
  rw [names.bodiless, names.named] at ran
  change (answer (specifier.second.orElse specifier.first).place >>= fun span =>
    namesOnly specifier name span >>= fun done =>
      if !done then declareClass specifier name (.classType false) span >>= fun _ => pure ()
      else pure ()) surroundings state = _ at ran
  rcases Binds.of_bind ran with ⟨span, first, places, rest⟩
  rcases of_answer places with ⟨-, rfl⟩
  rcases Binds.of_bind rest with ⟨done, second, asks, rest⟩
  rcases of_namesOnly names asks with ⟨same, unseen⟩
  cases done with
  | true =>
    cases rest
    exact .inr ⟨fun none => Bool.noConfusion (unseen.mpr none), same⟩
  | false =>
    rcases Binds.of_bind rest with ⟨declared, third, declares, ended⟩
    cases ended
    rcases unseen.mp rfl with ⟨_, found, called, simple, finds, empty⟩
    cases names.named.symm.trans called
    rcases of_declareClass_simple simple declares with ⟨answered, done⟩
    exact .inl ⟨⟨name, found, called, simple, finds, empty⟩,
      hasName_of_declares (declares_of_declare done)⟩

/-- What becomes of the classes that are named: the first one that is not visible is declared, and
nothing happens if there is none. -/
theorem of_bindSpecifiers {size : Nat} {specifiers : List Node}
    (named : ∀ specifier ∈ specifiers, ∃ name, NamesClass specifier name)
    (ran : specifiers.forM (bindSpecifier (bindWithin size) .elaborated none) surroundings state =
      .ok () after) :
    (∃ specifier ∈ specifiers, Unseen state.table surroundings.current specifier ∧
        ∃ name, NamesClass specifier name ∧ HasName surroundings.current name after.table) ∨
      (∀ specifier ∈ specifiers, ¬Unseen state.table surroundings.current specifier) ∧
        after.table = state.table := by
  induction specifiers generalizing state with
  | nil =>
    cases ran
    exact .inr ⟨fun _ member => absurd member List.not_mem_nil, rfl⟩
  | cons first rest ih =>
    rcases List.forall_mem_cons.mp named with ⟨⟨name, names⟩, namedRest⟩
    rcases Binds.of_bind ran with ⟨_, middle, ranFirst, ranRest⟩
    rcases of_bindSpecifier_named names ranFirst with ⟨unseen, has⟩ | ⟨seen, same⟩
    · have maintains : Maintains (HasName surroundings.current name)
          (rest.forM (bindSpecifier (bindWithin size) .elaborated none)) :=
        .forM fun specifier _ => maintains_bindSpecifier HasName.stable
          (HasName.stable.visits size) (fun _ _ => trivial) _ _
      exact .inl ⟨first, List.mem_cons_self .., unseen, name, names, maintains.of_ok has ranRest⟩
    · rw [← same]
      rcases ih namedRest ranRest with ⟨specifier, member, other⟩ | ⟨others, stays⟩
      · exact .inl ⟨specifier, List.mem_cons_of_mem _ member, other⟩
      · exact .inr ⟨List.forall_mem_cons.mpr ⟨same ▸ seen, others⟩, stays⟩

end Classes

/-! ## Friend declarations -/

section Declarations

variable {size : Nat} {surroundings : Surroundings} {state after : State} {node : Node}
  {name : Encoding}

/-- A declaration that names classes and declares functions, but defines nothing. -/
structure OnlyNames (node : Node) : Prop where
  classes : ∀ specifier ∈ typeSpecifiers node.second, ∃ name, NamesClass specifier name
  functions : ∀ declarator ∈ node.third.present, declarator.isA .declarator = true →
    (∃ name, declarator.name? = some name) ∧ (declarator.type?.getD .empty).isFunction = true
  noDefinition : node.third.isA .declarator = false

/-- The definition of a function without a qualifier. -/
structure DefinesFunction (node : Node) (name : Encoding) : Prop where
  definition : node.third.isA .declarator = true
  named : node.third.name? = some name
  simple : name.isQualified = false

theorem bindDeclaration_friend (visit : Visit) (noDefinition : node.third.isA .declarator = false)
    (friend : (Storage.ofSpecifiers node.first).isFriend = true) :
    bindDeclaration visit node = (do
      let header ← takeHeader
      bindType visit node.second .elaborated none
      (node.third.present.filter (·.isA .declarator)).forM
        (bindDeclarator visit (Storage.ofSpecifiers node.first) header)) := by
  unfold bindDeclaration
  simp only [noDefinition, friend, Bool.not_true, Bool.and_false, Bool.false_eq_true, if_false]

theorem bindDeclaration_definition (visit : Visit) (definition : node.third.isA .declarator = true) :
    bindDeclaration visit node = (do
      let header ← takeHeader
      bindType visit node.second .elaborated none
      bindFunction visit node header) := by
  unfold bindDeclaration
  simp only [definition, if_true]

/-- Functions that are friends are left out. -/
theorem looks_friend {visit : Visit} {storage : Storage} {header : Option ScopeId}
    {declarator : Node} (friend : storage.isFriend = true) (named : declarator.name? = some name)
    (isFunction : (declarator.type?.getD .empty).isFunction = true) :
    Looks (bindDeclarator visit storage header declarator) := by
  unfold bindDeclarator
  rw [named]
  refine .after (looks_answer _) fun span => ?_
  rw [isFunction, if_pos rfl]
  unfold bindPrototype
  rw [friend, if_pos rfl]
  exact looks_pure _

theorem looks_forM {α : Type} {items : List α} {step : α → Bind PUnit}
    (all : ∀ item ∈ items, Looks (step item)) : Looks (items.forM step) := by
  induction items with
  | nil => exact looks_pure _
  | cons first rest ih =>
    rcases List.forall_mem_cons.mp all with ⟨one, others⟩
    exact .after one fun _ => ih others

/-- Of a friend that defines nothing, the classes are declared that are not visible. -/
theorem of_bindDeclaration_named (names : OnlyNames node)
    (friend : (Storage.ofSpecifiers node.first).isFriend = true)
    (ran : bindDeclaration (bindWithin size) node surroundings state = .ok () after) :
    (∃ specifier ∈ typeSpecifiers node.second, Unseen state.table surroundings.current specifier ∧
        ∃ name, NamesClass specifier name ∧ HasName surroundings.current name after.table) ∨
      (∀ specifier ∈ typeSpecifiers node.second,
        ¬Unseen state.table surroundings.current specifier) ∧ after.table = state.table := by
  rw [bindDeclaration_friend _ names.noDefinition friend] at ran
  rcases Binds.of_bind ran with ⟨header, taken, takes, rest⟩
  cases takes
  rcases Binds.of_bind rest with ⟨_, middle, specifies, declares⟩
  have looks : Looks ((node.third.present.filter (·.isA .declarator)).forM
      (bindDeclarator (bindWithin size) (Storage.ofSpecifiers node.first) state.header)) := by
    refine looks_forM fun declarator member => ?_
    rcases List.mem_filter.mp member with ⟨there, isDeclarator⟩
    rcases names.functions declarator there isDeclarator with ⟨⟨name, named⟩, isFunction⟩
    exact looks_friend friend named isFunction
  have leaves := looks surroundings middle
  rw [declares] at leaves
  have named := of_bindSpecifiers names.classes specifies
  rw [leaves.1.table]
  exact named

theorem not_malformed {α : Type} {construct : Construct} {expected : Expectation} {value : α}
    (ran : (malformed node construct expected : Bind α) surroundings state = .ok value after) :
    False := by
  have impossible := reads_malformed (α := α) node construct expected surroundings state
  rw [ran] at impossible
  exact impossible.2

/-- A function that is defined is declared in the scope at hand. -/
theorem hasName_of_definition (defines : DefinesFunction node name)
    (ran : bindDeclaration (bindWithin size) node surroundings state = .ok () after) :
    HasName surroundings.current name after.table := by
  rw [bindDeclaration_definition _ defines.definition] at ran
  rcases Binds.of_bind ran with ⟨header, taken, -, rest⟩
  rcases Binds.of_bind rest with ⟨_, middle, -, function⟩
  unfold bindFunction at function
  rw [defines.named] at function
  dsimp only at function
  split at function
  · exact (not_malformed function).elim
  split at function
  · exact (not_malformed function).elim
  rw [bindDefinition_eq] at function
  rcases Binds.of_bind function with ⟨span, placed, -, declares⟩
  rcases Binds.of_bind declares with ⟨⟨symbol, declaring⟩, entered, named, behind⟩
  rcases of_declare (of_declareNamed_simple defines.simple named) with
    ⟨table, answered, done, reports, rfl, -⟩
  have has : HasName surroundings.current name table := hasName_of_declares (declares_of_declare done)
  exact (maintains_behindDefinition HasName.stable (HasName.stable.visits size) (fun _ _ => trivial)
    (fun _ _ => trivial) (fun _ _ => trivial) name header symbol declaring).of_ok has behind

end Declarations

/-! ## Template headers -/

/-- What happens to a table elsewhere leaves the names of a scope alone and gives it to no node. -/
structure PassesBy (owner : ScopeId) (before after : Table) : Prop where
  names : ∀ scope, before.scope owner = .ok scope →
    ∃ later, after.scope owner = .ok later ∧ later.bindings = scope.bindings
  notes : ∀ label, before.scopeOfNode? label ≠ some owner → after.scopeOfNode? label ≠ some owner

namespace PassesBy

variable {owner : ScopeId} {table first second third after : Table}

theorem refl (table : Table) : PassesBy owner table table :=
  ⟨fun scope read => ⟨scope, read, rfl⟩, fun _ => id⟩

theorem trans (front : PassesBy owner first second) (back : PassesBy owner second third) :
    PassesBy owner first third where
  names scope read := by
    rcases front.names scope read with ⟨later, readLater, same⟩
    rcases back.names later readLater with ⟨last, readLast, sameLast⟩
    exact ⟨last, readLast, sameLast.trans same⟩
  notes label other := back.notes label (front.notes label other)

theorem hasScope (passes : PassesBy owner first second) (there : first.HasScope owner) :
    second.HasScope owner := by
  rcases scope_of_hasScope there with ⟨scope, read⟩
  rcases passes.names scope read with ⟨later, readLater, -⟩
  exact hasScope_of_scope readLater

theorem withScope (there : table.HasScope owner) (scope : Scope) :
    PassesBy owner table (table.withScope scope) where
  names found read := ⟨found, by rw [scope_withScope, if_neg (ne_nextScope there), read], rfl⟩
  notes _ := id

/-- A new scope is another one. -/
theorem createScope (there : table.HasScope owner) (region : Region) (outer : ScopeId)
    (node : Tree.NodeId) :
    PassesBy owner table (table.createScope region (some outer) (some node)).1 := by
  have placed : PassesBy owner (table.withScope (.ofRegion region (some outer)))
      ((table.withScope (.ofRegion region (some outer))).modifyScope outer
        fun found => { found with nested := found.nested ++ [table.nextScope] }) := by
    refine ⟨fun scope read => ?_, fun _ => id⟩
    rw [scope_modifyScope]
    split
    · next same =>
      rw [read]
      exact ⟨_, rfl, rfl⟩
    · exact ⟨scope, read, rfl⟩
  have noted : ∀ {other : Table}, PassesBy owner other (other.setNodeScope node table.nextScope) := by
    refine ⟨fun scope read => ⟨scope, read, rfl⟩, fun label apart => ?_⟩
    rw [scopeOfNode?_setNodeScope]
    split
    · exact fun same => ne_nextScope there (Option.some.inj same).symm
    · exact apart
  unfold Table.createScope
  dsimp only
  split
  · exact ((PassesBy.withScope there _).trans placed).trans noted
  · exact .withScope there _

theorem declares {scope : ScopeId} {symbol : Symbol} {answer : Except Refusal SymbolId}
    (other : scope ≠ owner) (declares : table.Declares scope symbol after answer) :
    PassesBy owner table after := by
  cases declares with
  | fresh found read judged =>
    refine ⟨fun here readHere => ⟨here, ?_, rfl⟩, fun _ => id⟩
    rw [scope_modifyScope, if_neg other, scope_withSymbol, readHere]
  | again | refused => exact ⟨fun here readHere => ⟨here, readHere, rfl⟩, fun _ => id⟩

end PassesBy

section Headers

variable {owner scope : ScopeId} {surroundings : Surroundings} {state after : State} {node : Node}

theorem passesBy_declareQuietly {symbol : Symbol} (other : scope ≠ owner)
    (ran : declareQuietly scope symbol surroundings state = .ok () after) :
    PassesBy owner state.table after.table := by
  rcases of_discard ran with ⟨id, declares⟩
  rcases of_declare declares with ⟨table, answered, done, reports, rfl, -⟩
  exact .declares other (declares_of_declare done)

theorem passesBy_bindTemplateParameter (other : scope ≠ owner) {parameter : Node}
    (ran : bindTemplateParameter scope parameter surroundings state = .ok () after) :
    PassesBy owner state.table after.table := by
  unfold bindTemplateParameter at ran
  dsimp only at ran
  split at ran
  · split at ran
    · exact passesBy_declareQuietly other ran
    · cases ran
      exact .refl _
  split at ran
  · cases named : parameter.name? with
    | none =>
      rw [named] at ran
      cases ran
      exact .refl _
    | some name =>
      rw [named] at ran
      rcases Binds.of_bind ran with ⟨span, _, places, declares⟩
      rcases of_answer places with ⟨-, rfl⟩
      exact passesBy_declareQuietly other declares
  · cases ran
    exact .refl _

theorem passesBy_parameters (other : scope ≠ owner) {parameters : List Node}
    (ran : parameters.forM (bindTemplateParameter scope) surroundings state = .ok () after) :
    PassesBy owner state.table after.table := by
  induction parameters generalizing state with
  | nil =>
    cases ran
    exact .refl _
  | cons first rest ih =>
    rcases Binds.of_bind ran with ⟨_, middle, ranFirst, ranRest⟩
    exact (passesBy_bindTemplateParameter other ranFirst).trans (ih ranRest)

/-- A header adds a scope of its own, unless its node has one. -/
theorem passesBy_scopeFor {label : Tree.NodeId} {outer id : ScopeId} {region : Region}
    (ran : scopeFor label outer region surroundings state = .ok id after)
    (there : state.table.HasScope owner) (apart : state.table.scopeOfNode? label ≠ some owner) :
    PassesBy owner state.table after.table ∧ id ≠ owner := by
  rcases Binds.of_bind ran with ⟨here, _, isHere, rest⟩
  cases isHere
  cases known : state.table.scopeOfNode? label with
  | some scope =>
    rw [known] at rest apart
    cases rest
    exact ⟨.refl _, fun same => apart (congrArg some same)⟩
  | none =>
    rw [known] at rest
    change (change (fun _ => (state.table.createScope region (some outer) (some label)).1) >>=
      fun _ => answer (state.table.createScope region (some outer) (some label)).2) surroundings
        state = _ at rest
    rcases Binds.of_bind rest with ⟨_, _, changes, answers⟩
    cases changes
    rcases of_answer answers with ⟨made, rfl⟩
    refine ⟨.createScope there region outer label, ?_⟩
    unfold Table.createScope at made
    dsimp only at made
    split at made
    · cases made
      exact (ne_nextScope there).symm
    · cases made

/-- Under a template header the declaration is bound next, in the same scope. -/
theorem of_bindTemplate {visit : Visit} (there : state.table.HasScope owner)
    (apart : state.table.scopeOfNode? node.id ≠ some owner)
    (ran : bindTemplate visit node surroundings state = .ok () after) :
    ∃ middle last, visit (node.nth 4) surroundings middle = .ok () last ∧
      PassesBy owner state.table middle.table ∧ after.table = last.table := by
  unfold bindTemplate at ran
  dsimp only at ran
  split at ran
  · rcases Binds.of_bind ran with ⟨_, _, malformed, _⟩
    exact (not_malformed malformed).elim
  rcases Binds.of_bind ran with ⟨header, _, takes, ran⟩
  cases takes
  rcases Binds.of_bind ran with ⟨here, _, isHere, ran⟩
  cases isHere
  rcases Binds.of_bind ran with ⟨scope, opened, opens, ran⟩
  rcases passesBy_scopeFor opens there apart with ⟨around, other⟩
  rcases Binds.of_bind ran with ⟨_, noted, notes, ran⟩
  rcases Binds.of_bind ran with ⟨_, filled, parameters, ran⟩
  rcases Binds.of_bind ran with ⟨_, _, sets, ran⟩
  cases sets
  rcases Binds.of_bind ran with ⟨_, last, visits, ended⟩
  cases ended
  have same : noted.table = opened.table :=
    (Maintains.annotate node scope : Maintains (· = opened.table) _).of_ok rfl notes
  have entered := passesBy_parameters other parameters
  rw [same] at entered
  exact ⟨_, last, visits, around.trans entered, rfl⟩

end Headers

/-- A declaration under some template headers, the first of which is outermost. -/
inductive UnderHeaders (declaration : Node) : List Tree.NodeId → Node → Prop
  | here : UnderHeaders declaration [] declaration
  | header {labels : List Tree.NodeId} {node : Node} (spells : node.construct? = some .templateDecl)
      (inside : UnderHeaders declaration labels (node.nth 4)) :
      UnderHeaders declaration (node.id :: labels) node

/-- What is declared under template headers is bound in the scope around them. -/
theorem UnderHeaders.of_bindWithin {declaration node : Node} {labels : List Tree.NodeId}
    (under : UnderHeaders declaration labels node)
    (isDeclaration : declaration.construct? = some .declaration) {size : Nat}
    {surroundings : Surroundings} {state after : State}
    (there : state.table.HasScope surroundings.current)
    (apart : ∀ label ∈ labels, state.table.scopeOfNode? label ≠ some surroundings.current)
    (ran : bindWithin size node surroundings state = .ok () after) :
    ∃ inner middle last, bindDeclaration (bindWithin inner) declaration surroundings middle =
        .ok () last ∧ PassesBy surroundings.current state.table middle.table ∧
      (labels = [] → middle = state) ∧ after.table = last.table := by
  induction under generalizing size state after with
  | here =>
    cases size with
    | zero => cases ran
    | succ inner =>
      change bindNode (bindWithin inner) declaration surroundings state = _ at ran
      unfold bindNode at ran
      rw [isDeclaration] at ran
      exact ⟨inner, state, after, ran, .refl _, fun _ => rfl, rfl⟩
  | @header labels node spells inside ih =>
    cases size with
    | zero => cases ran
    | succ inner =>
      change bindNode (bindWithin inner) node surroundings state = _ at ran
      unfold bindNode at ran
      rw [spells] at ran
      rcases List.forall_mem_cons.mp apart with ⟨outermost, rest⟩
      rcases of_bindTemplate there outermost ran with ⟨opened, closed, visits, around, same⟩
      rcases ih (around.hasScope there) (fun label member => around.notes label (rest label member)) visits with
        ⟨size, middle, last, binds, further, -, sameLast⟩
      exact ⟨size, middle, last, binds, around.trans further, nofun, same.trans sameLast⟩

/-! ## Names that friends add -/

/-- A name that a declaration gives to a class or a function. -/
def Offers (declaration : Node) (name : Encoding) : Prop :=
  DefinesFunction declaration name ∨
    ∃ specifier ∈ typeSpecifiers declaration.second, NamesClass specifier name

/-- A friend leaves the names of a scope alone exactly where it defines no function and every class
that it names is visible, however many template headers it stands under.  So a friend that is
defined in a class becomes one of its members, and so does a class that is declared as a friend. -/
theorem bindings_eq_iff_of_friend {declaration node : Node} {labels : List Tree.NodeId}
    (under : UnderHeaders declaration labels node)
    (isDeclaration : declaration.construct? = some .declaration)
    (friend : (Storage.ofSpecifiers declaration.first).isFriend = true)
    (form : OnlyNames declaration ∨ ∃ name, DefinesFunction declaration name)
    {size : Nat} {surroundings : Surroundings} {state after : State} {scope : Scope}
    (read : state.table.scope surroundings.current = .ok scope)
    (apart : ∀ label ∈ labels, state.table.scopeOfNode? label ≠ some surroundings.current)
    (unused : ∀ name, Offers declaration name → scope.named name = [])
    (ran : bindWithin size node surroundings state = .ok () after) :
    ∃ middle later, PassesBy surroundings.current state.table middle ∧
      (labels = [] → middle = state.table) ∧
      after.table.scope surroundings.current = .ok later ∧
      (later.bindings = scope.bindings ↔ ¬((∃ name, DefinesFunction declaration name) ∨
        ∃ specifier ∈ typeSpecifiers declaration.second,
          Unseen middle surroundings.current specifier)) := by
  rcases under.of_bindWithin isDeclaration (hasScope_of_scope read) apart ran with
    ⟨inner, middle, last, binds, around, alone, same⟩
  -- a name that is there behind the declaration is a new one
  have differs : ∀ {name}, Offers declaration name →
      HasName surroundings.current name last.table → ∃ later,
        after.table.scope surroundings.current = .ok later ∧ later.bindings ≠ scope.bindings := by
    rintro name offers ⟨later, readLater, some⟩
    refine ⟨later, same ▸ readLater, fun equal => some ?_⟩
    have none := unused name offers
    unfold Scope.named at none ⊢
    rwa [equal]
  refine ⟨middle.table, ?_⟩
  rcases form with names | ⟨name, defines⟩
  · have noDefinition : ¬∃ name, DefinesFunction declaration name := fun ⟨_, defines⟩ =>
      Bool.noConfusion (names.noDefinition.symm.trans defines.definition)
    rcases of_bindDeclaration_named names friend binds with
      ⟨specifier, member, unseen, name, called, has⟩ | ⟨seen, stays⟩
    · rcases differs (.inr ⟨specifier, member, called⟩) has with ⟨later, readLater, changed⟩
      exact ⟨later, around, fun none => congrArg State.table (alone none), readLater,
        iff_of_false changed (not_not_intro (.inr ⟨specifier, member, unseen⟩))⟩
    · rcases around.names scope read with ⟨later, readLater, equal⟩
      refine ⟨later, around, fun none => congrArg State.table (alone none), ?_, iff_of_true equal ?_⟩
      · rw [same, stays, readLater]
      · exact not_or.mpr ⟨noDefinition, fun ⟨specifier, member, unseen⟩ =>
          seen specifier member unseen⟩
  · rcases differs (.inl defines) (hasName_of_definition defines binds) with
      ⟨later, readLater, changed⟩
    exact ⟨later, around, fun none => congrArg State.table (alone none), readLater,
      iff_of_false changed (not_not_intro (.inl ⟨name, defines⟩))⟩

open Encoding (simpleName)

/-- The definition `friend void f() {}`. -/
def friendDefinition : Node :=
  .cell 20 .declaration none none
    (.cell 21 .cons none none (.leaf 22 ⟨.kwFriend, "friend", 0⟩) .nil)
    (.cell 23 .cons none none (.leaf 24 ⟨.kwVoid, "void", 7⟩)
      (.cell 25 .cons none none
        (.cell 26 .declarator (some (simpleName "f")) (some ⟨utf8Bytes "F_v"⟩)
          (.leaf 27 ⟨.identifier, "f", 12⟩) .nil)
        (.cell 28 .cons none none .nil
          (.cell 29 .cons none none (.cell 30 .block none none .nil .nil) .nil))))

/-- A template header in front of the definition. -/
def friendTemplate : Node :=
  .cell 40 .templateDecl none none (.leaf 41 ⟨.kwTemplate, "template", 0⟩)
    (.cell 42 .cons none none .nil (.cell 43 .cons none none .nil (.cell 44 .cons none none .nil
      (.cell 45 .cons none none friendDefinition .nil))))

/-- A function that is defined as a friend under a template header becomes a member. -/
theorem bindings_eq_iff_of_friend_template :
    ∃ after later, bindWithin 5 friendTemplate ⟨"", {}, ⟨1⟩⟩ ⟨openClass, [], none, []⟩ =
        .ok () after ∧ after.table.scope ⟨1⟩ = .ok later ∧ later.bindings ≠ [] := by
  have ends : (endState? (bindWithin 5 friendTemplate ⟨"", {}, ⟨1⟩⟩
      ⟨openClass, [], none, []⟩)).isSome := by
    decide +kernel
  have empty : (openClass.scope ⟨1⟩).toOption.any (·.bindings.isEmpty) := by
    decide +kernel
  rcases Option.isSome_iff_exists.mp ends with ⟨after, ended⟩
  rcases (Option.any_eq_true _ _).mp empty with ⟨scope, opened, none⟩
  have bindings : scope.bindings = [] := List.isEmpty_iff.mp none
  have defines : DefinesFunction friendDefinition (simpleName "f") :=
    ⟨by decide +kernel, rfl, by decide +kernel⟩
  have inside : UnderHeaders friendDefinition [] (friendTemplate.nth 4) := .here
  have under : UnderHeaders friendDefinition [friendTemplate.id] friendTemplate :=
    .header rfl inside
  have unused : ∀ name, Offers friendDefinition name → scope.named name = [] := by
    intro name _
    unfold Scope.named
    rw [bindings]
    rfl
  rcases bindings_eq_iff_of_friend under rfl (by decide +kernel) (.inr ⟨_, defines⟩)
      (Outcome.of_toOption opened) (by decide +kernel) unused (of_endState? ended) with
    ⟨middle, later, -, -, readLater, changes⟩
  refine ⟨after, later, of_endState? ended, readLater, fun equal => ?_⟩
  exact changes.mp (equal.trans bindings.symm) (.inl ⟨_, defines⟩)

end Binding

end CppNames
