import CppNames.Proofs.Binding.Step

namespace CppNames
namespace Binding

/-!
# Binding notes the scopes that are needed

Binding a tree whose cells fit meets no malformed construct, and afterwards the pass over
uses can walk through the tree.  This is shown construct by construct, given that it holds of
whatever lies deeper, and then for whole trees by induction on their size.
-/

open Reference (Walkable WalkableClass WalkableType WalkableDefinition)

/-- A visit that leaves walkable nodes behind. -/
def VisitsWell (visit : Visit) : Prop :=
  ∀ node, node.Throughout Tree.Fits →
    Binds (visit node) fun _ annotations => Walkable annotations node

variable {visit : Visit}

theorem visitElements_binds (well : VisitsWell visit) {node : Node}
    (fits : node.Throughout Tree.Fits) :
    Binds (visitElements visit node) fun _ annotations =>
      ∀ element ∈ node.present, Walkable annotations element :=
  .forM (fun element annotations => Walkable annotations element) fun element member =>
    well element (fits.present element member)

/-! ## Namespaces -/

theorem quiet_fragmentScope (node : Tree.NodeId) (name : Encoding) (outer : ScopeId) (id : SymbolId) :
    Quiet (fragmentScope node name outer id) := by
  refine .after (quiet_ask _) fun symbol => ?_
  split
  · exact .after (quiet_change _) fun _ => quiet_pure _
  · exact .after (quiet_createScope _ _ _) fun _ => .after (quiet_setDefines _ _) fun _ => quiet_pure _

theorem quiet_refusedScope (node : Tree.NodeId) (name : Encoding) (outer : ScopeId)
    (previous : SymbolId) : Quiet (refusedScope node name outer previous) := by
  refine .after (quiet_ask _) fun symbol => ?_
  split
  · exact quiet_pure _
  · exact quiet_scopeFor _ _ _

theorem quiet_namespaceScope (node : Node) (name : Encoding) : Quiet (namespaceScope node name) := by
  refine .after quiet_current fun outer => .after (quiet_answer _) fun span =>
    .after (quiet_perform _) fun declared => ?_
  split
  · exact quiet_fragmentScope _ _ _ _
  · exact .after (quiet_answer _) fun _ => .after (quiet_reportRefusal _ _ _) fun _ =>
      quiet_refusedScope _ _ _ _

theorem bindNamespace_binds (well : VisitsWell visit) {node : Node}
    (spells : node.construct? = some .namespaceSpec) (fits : node.Throughout Tree.Fits) :
    Binds (bindNamespace visit node) fun _ annotations => Walkable annotations node := by
  have braced : node.third.isA .brace = true := fits.ofConstruct spells
  unfold bindNamespace
  dsimp only
  rw [if_pos braced]
  refine .after (quiet_namespaceScope _ _) fun scope => ?_
  refine .bind (annotate_binds node scope (Tree.isCell_of_construct? spells)) fun _ => ?_
  have body : Binds (inScope scope (visitElements visit node.third)) fun _ annotations =>
      annotations.Has node → Walkable annotations node :=
    (Binds.inScope (visitElements_binds well (fits.nth 2))).weaken
      fun _ annotations elements has => Reference.walkable_namespace spells has elements
  split
  · exact .after quiet_current fun outer => .after (.discard (quiet_perform _)) fun _ => body
  · exact body

/-! ## Classes -/

theorem quiet_namesOnly (specifier : Node) (name : Encoding) (span : Option Span) :
    Quiet (namesOnly specifier name span) := by
  refine .after quiet_site fun site => .after (quiet_answer _) fun found => ?_
  split
  · exact .after (quiet_reportLookup _ _) fun _ => quiet_pure _
  · split
    · refine .after (quiet_ask _) fun previous => ?_
      split
      · exact .after (quiet_answer _) fun _ => .after (quiet_reportRefusal _ _ _) fun _ => quiet_pure _
      · exact quiet_pure _
    · split
      · exact .after (quiet_answer _) fun _ => .after (quiet_report _ _ _) fun _ => quiet_pure _
      · exact quiet_pure _

theorem quiet_declareClass (specifier : Node) (name : Encoding) (kind : SymbolKind)
    (span : Option Span) : Quiet (declareClass specifier name kind span) := by
  refine .after quiet_current fun scope => ?_
  refine .afterIf (quiet_declarationTarget _ _) (quiet_pure _) fun target => ?_
  dsimp only
  split
  · exact .after (quiet_answer _) fun _ => quiet_pure _
  · refine .after (quiet_perform _) fun answered => ?_
    split
    · exact quiet_pure _
    · exact .after (quiet_answer _) fun _ => .after (quiet_reportRefusal _ _ _) fun _ => quiet_pure _

theorem quiet_bindBase (scope source : ScopeId) (base : Node) :
    Quiet (bindBase scope source base) := by
  unfold bindBase
  dsimp only
  split
  · exact quiet_pure _
  · refine .after (quiet_answer _) fun span => .after (quiet_ask _) fun found => ?_
    split
    · refine .after (quiet_ask _) fun target => ?_
      split
      · exact .discard (quiet_perform _)
      · exact .after (quiet_answer _) fun _ => quiet_report _ _ _
    · exact quiet_pure _
    · exact quiet_reportLookup _ _

theorem bindClassBody_binds (well : VisitsWell visit) {specifier body : Node}
    (list : specifier.isCell = true) (fits : body.Throughout Tree.Fits) (header : Option ScopeId)
    (declared : DeclaredClass) :
    Binds (bindClassBody visit specifier body header declared) fun _ annotations =>
      annotations.Has specifier ∧ ∀ element ∈ body.present, Walkable annotations element := by
  refine .after (quiet_scopeFor _ _ _) fun scope => ?_
  refine .bind (annotate_binds specifier scope list) fun _ => ?_
  refine .after (.forMQuiet (quiet_bindBase scope _)) fun _ => ?_
  have elements : Binds (inScope scope (visitElements visit body)) fun _ annotations =>
      annotations.Has specifier →
        annotations.Has specifier ∧ ∀ element ∈ body.present, Walkable annotations element :=
    (Binds.inScope (visitElements_binds well fits)).weaken
      fun _ annotations walkable has => ⟨has, walkable⟩
  split
  · exact .after (quiet_setDefines _ _) fun _ => elements
  · exact elements

/-- A class without a body is only declared or named. -/
theorem quiet_bindClass {specifier : Node} (named : specifier.name?.isSome = true)
    (absent : (specifier.nth 3).isNil = true) (use : ClassUse) (header : Option ScopeId) :
    Quiet (bindClass visit specifier use header) := by
  rcases Option.isSome_iff_exists.mp named with ⟨name, same⟩
  unfold bindClass
  dsimp only
  simp only [absent, same, Bool.not_true, Bool.false_and, Bool.false_eq_true, if_false]
  refine .after (quiet_answer _) fun span => ?_
  refine .afterIf (quiet_namesOnly _ _ _) (quiet_pure _) fun done => ?_
  split
  · exact .after (quiet_declareClass _ _ _ _) fun _ => quiet_pure _
  · exact quiet_pure _

/-- A class with a body is entered, whatever is in the way of its name. -/
theorem bindClass_binds (well : VisitsWell visit) {specifier : Node}
    (spells : specifier.construct? = some .classSpec) (fits : specifier.Throughout Tree.Fits)
    (use : ClassUse) (header : Option ScopeId) :
    Binds (bindClass visit specifier use header) fun _ annotations =>
      Walkable annotations specifier := by
  have shape := fits.ofConstruct spells
  cases absent : (specifier.nth 3).isNil with
  | true =>
    refine (quiet_bindClass shape.2 absent use header).weaken fun _ annotations _ => ?_
    exact Reference.walkable_class spells (.inl absent)
  | false =>
    rcases Option.isSome_iff_exists.mp shape.2 with ⟨name, same⟩
    have body : (specifier.nth 3).isA .classBody = true :=
      shape.1.resolve_left fun nothing => by rw [absent] at nothing; cases nothing
    unfold bindClass
    dsimp only
    simp only [absent, body, same, Bool.not_true, Bool.and_false, Bool.false_and, Bool.not_false,
      Bool.false_eq_true, if_false, if_true]
    have undone : Binds (pure false : Bind Bool) fun done _ => done = false := .pure fun _ => rfl
    refine .after (quiet_answer _) fun span => .bind undone fun done => ?_
    cases done with
    | true => exact .pure fun annotations impossible => nomatch impossible
    | false =>
      refine .after (quiet_declareClass _ _ _ _) fun declared => ?_
      refine (bindClassBody_binds well (Tree.isCell_of_construct? spells) (fits.nth 3) header
        declared).weaken fun _ annotations defined _ => ?_
      exact Reference.walkable_class spells (.inr defined)

/-! ## Enumerations -/

theorem quiet_enumeratorValue (expression : Node) : Quiet (enumeratorValue expression) := by
  refine .after quiet_site fun site => .after .read fun surroundings =>
    .after (quiet_answer _) fun value => ?_
  dsimp only
  split
  · exact .after (quiet_answer _) fun span => .after (quiet_report _ _ _) fun _ => quiet_pure _
  · exact quiet_pure _

theorem quiet_bindEnumerator (type : Encoding) (next : Option Int64) (item : Node) :
    Quiet (bindEnumerator type next item) := by
  unfold bindEnumerator
  split
  · exact quiet_pure _
  · refine .afterIf (quiet_pure _) (quiet_enumeratorValue _) fun value => ?_
    exact .after quiet_current fun scope =>
      .after (quiet_declareQuietly _ _) fun _ => quiet_pure _

theorem quiet_enumVisible (name : Encoding) : Quiet (enumVisible name) :=
  .after quiet_site fun _ => .after (quiet_answer _) fun _ => quiet_pure _

theorem quiet_bindEnum {specifier : Node} (fits : specifier.FitsEnum) : Quiet (bindEnum specifier) := by
  rcases Option.isSome_iff_exists.mp fits.2.1 with ⟨name, same⟩
  have shape : (!specifier.third.isNil && !specifier.third.isA .brace) = false := by
    rcases fits.1 with absent | braced
    · rw [absent]
      rfl
    · rw [braced, Bool.not_true, Bool.and_false]
  unfold bindEnum
  dsimp only
  rw [shape, if_neg (by decide), same]
  dsimp only
  have enumerators : Quiet (discard
      (specifier.third.second.present.foldlM (bindEnumerator name) (some 0))) :=
    .discard (.foldlM (fun next item _ => quiet_bindEnumerator name next item) _)
  refine .after (quiet_answer _) fun span => ?_
  refine .afterIf (quiet_enumVisible _) (quiet_pure _) fun known => ?_
  split
  · split
    · exact .after quiet_current fun scope => .after (quiet_declareQuietly _ _) fun _ => enumerators
    · exact enumerators
  · exact quiet_pure _

/-! ## Type specifiers -/

theorem throughout_typeWords (words : Node) : words.Throughout Tree.Fits →
    (∀ word ∈ words.typeWords, word.Throughout Tree.Fits) ∧
      ∀ word ∈ words.typeWordsBehind, word.Throughout Tree.Fits := by
  induction words with
  | nil => exact fun _ => ⟨by simp [Tree.typeWords], by simp [Tree.typeWordsBehind]⟩
  | leaf label token =>
    exact fun _ => ⟨by simp [Tree.typeWords, Tree.Throughout], by simp [Tree.typeWordsBehind]⟩
  | cell label construct name type head tail ihHead ihTail =>
    intro fits
    have parts : ∀ word ∈ head.typeWords ++ tail.typeWordsBehind, word.Throughout Tree.Fits := by
      intro word member
      rcases List.mem_append.mp member with front | back
      · exact (ihHead fits.2.1).1 word front
      · exact (ihTail fits.2.2).2 word back
    refine ⟨fun word member => ?_, fun word member => ?_⟩
    · unfold Tree.typeWords at member
      split at member
      · exact parts word member
      · rw [List.mem_singleton.mp member]
        exact fits
    · exact parts word member

theorem bindSpecifier_binds (well : VisitsWell visit) {specifier : Node}
    (specifies : (specifier.isA .classSpec || specifier.isA .enumSpec) = true)
    (fits : specifier.Throughout Tree.Fits) (use : ClassUse) (header : Option ScopeId) :
    Binds (bindSpecifier visit use header specifier) fun _ annotations =>
      Walkable annotations specifier := by
  unfold bindSpecifier
  split
  · next isEnum =>
    have spells : specifier.construct? = some .enumSpec := eq_of_beq isEnum
    have shape := fits.ofConstruct spells
    exact (quiet_bindEnum shape).weaken fun _ annotations _ => Reference.walkable_enum spells shape
  · next noEnum =>
    rcases Bool.or_eq_true_iff.mp specifies with isClass | isEnum
    · exact bindClass_binds well (eq_of_beq isClass) fits use header
    · exact absurd isEnum noEnum

theorem bindType_binds (well : VisitsWell visit) {words : Node} (fits : words.Throughout Tree.Fits)
    (use : ClassUse) (header : Option ScopeId) :
    Binds (bindType visit words use header) fun _ annotations => WalkableType annotations words := by
  have each : Binds (bindType visit words use header) fun _ annotations =>
      ∀ word ∈ typeSpecifiers words, Walkable annotations word := by
    refine .forM (fun word annotations => Walkable annotations word) fun word member => ?_
    have both := List.mem_filter.mp member
    exact bindSpecifier_binds well both.2 ((throughout_typeWords words fits).1 word both.1) use header
  refine each.weaken fun _ annotations walkable word member specifies => ?_
  exact walkable word (List.mem_filter.mpr ⟨member, specifies⟩)

/-! ## Functions -/

theorem quiet_bindParameter (well : VisitsWell visit) (scope : ScopeId) {parameter : Node}
    (fits : parameter.Throughout Tree.Fits) : Quiet (bindParameter visit scope parameter) := by
  have elements : Quiet (visitElements visit parameter.third) :=
    (visitElements_binds well (fits.nth 2)).quiet
  unfold bindParameter
  dsimp only
  split
  · exact .after (quiet_answer _) fun span => .after (quiet_declareQuietly _ _) fun _ => elements
  · exact elements

theorem quiet_bindParameters (well : VisitsWell visit) {parameters : Node}
    (fits : parameters.Throughout Tree.Fits) (scope : ScopeId) :
    Quiet (bindParameters visit parameters scope) := by
  refine .inScope (Binds.forM (fun _ _ => True) fun parameter member => ?_).quiet
  exact quiet_bindParameter well scope
    (fits.present parameter (List.mem_filter.mp member).1)

theorem quiet_prototypeScope (declarator : Node) (outer : ScopeId) :
    Quiet (prototypeScope declarator outer) :=
  .after (quiet_scopeFor _ _ _) fun _ => .after (quiet_annotate _ _) fun _ => quiet_pure _

theorem throughout_parameterList {declarator : Node} (fits : declarator.Throughout Tree.Fits) :
    declarator.parameterList.Throughout Tree.Fits := by
  unfold Tree.parameterList Tree.elementBehind
  cases behind : (declarator.elements.dropWhile (!·.isToken .openParen)).drop 1 with
  | nil => trivial
  | cons first rest =>
    have member : first ∈ (declarator.elements.dropWhile (!·.isToken .openParen)).drop 1 := by
      rw [behind]
      exact List.mem_cons_self ..
    exact fits.elements first ((List.dropWhile_suffix _).subset (List.mem_of_mem_drop member))

theorem quiet_bindPrototype (well : VisitsWell visit) {declarator : Node}
    (fits : declarator.Throughout Tree.Fits) (name type : Encoding) (span : Option Span)
    (storage : Storage) (header : Option ScopeId) :
    Quiet (bindPrototype visit declarator name type span storage header) := by
  unfold bindPrototype
  split
  · exact quiet_pure _
  · exact .after (quiet_declareNamed _ _ _ _ _) fun _ => .after (quiet_prototypeScope _ _) fun _ =>
      quiet_bindParameters well (throughout_parameterList fits) _

theorem functionScope_binds (node declarator body : Node) (name : Encoding) (outer : ScopeId)
    (list : node.isCell = true) :
    Binds (functionScope node declarator body name outer) fun _ annotations =>
      annotations.Has node := by
  refine .after (quiet_prototypeScope _ _) fun prototype => .after (quiet_answer _) fun last =>
    .after (quiet_answer _) fun key => .after (quiet_scopeFor _ _ _) fun scope => ?_
  refine .bind (annotate_binds node scope list) fun _ => ?_
  exact .after (quiet_annotate _ _) fun _ => .after (quiet_change _) fun _ =>
    .pure fun annotations has => has

/-- What binding the body of a function leaves behind. -/
def WalkableBody (annotations : Annotations) (node : Node) : Prop :=
  ((node.nth 3).isA .block = true ∨ Walkable annotations (node.nth 3)) ∧
    ∀ element ∈ node.last.present, Walkable annotations element

theorem bindFunctionBody_binds (well : VisitsWell visit) {node : Node}
    (fits : node.Throughout Tree.Fits) (body : node.last.Throughout Tree.Fits) :
    Binds (bindFunctionBody visit node node.last) fun _ annotations =>
      WalkableBody annotations node := by
  have elements := visitElements_binds well body
  unfold bindFunctionBody
  dsimp only
  split
  · refine .bind (well _ (fits.nth 3)) fun _ => ?_
    exact elements.weaken fun _ annotations walkable members => ⟨.inr members, walkable⟩
  · next skipped =>
    refine elements.weaken fun _ annotations walkable => ⟨?_, walkable⟩
    cases isBlock : (node.nth 3).isA .block with
    | true => exact .inl rfl
    | false =>
      rw [isBlock] at skipped
      cases members : node.nth 3 with
      | nil => exact .inr Reference.walkable_nil
      | leaf label token => rw [members] at skipped; exact absurd rfl skipped
      | cell label construct name type head tail =>
        rw [members] at skipped
        exact absurd rfl skipped

theorem bindDefinition_binds (well : VisitsWell visit) {node : Node} (name : Encoding)
    (header : Option ScopeId) (list : node.isCell = true) (fits : node.Throughout Tree.Fits) :
    Binds (bindDefinition visit node node.third node.last name header) fun _ annotations =>
      WalkableDefinition annotations node := by
  refine .after (quiet_answer _) fun span => .after (quiet_declareNamed _ _ _ _ _) fun declared => ?_
  have inside : ∀ scopes : ScopeId × ScopeId, Binds (do
      bindParameters visit node.third.parameterList scopes.1
      inScope scopes.2 (bindFunctionBody visit node node.last)) fun _ annotations =>
        annotations.Has node → WalkableDefinition annotations node := by
    intro scopes
    refine .after (quiet_bindParameters well (throughout_parameterList (fits.nth 2)) _) fun _ => ?_
    exact (Binds.inScope (bindFunctionBody_binds well fits fits.last)).weaken
      fun _ annotations body has => ⟨has, body.1, body.2⟩
  have noted : ∀ scope, Binds (functionScope node node.third node.last name scope)
      fun _ annotations => annotations.Has node := fun scope => functionScope_binds _ _ _ _ _ list
  rcases declared with ⟨symbol, declaring⟩
  -- the scope of a header may be moved before that of the function is entered
  cases symbol with
  | none =>
    have entered := fun scope => (noted scope).bind inside
    dsimp only
    split
    · split
      · exact .after (quiet_ask _) fun moved => .after (quiet_change _) fun _ => entered _
      · exact entered _
    · exact entered _
  | some id =>
    have entered := fun scope => (noted scope).bind fun scopes =>
      Binds.after (quiet_setDefines id scopes.2) fun _ => inside scopes
    dsimp only
    split
    · split
      · exact .after (quiet_ask _) fun moved => .after (quiet_change _) fun _ => entered _
      · exact entered _
    · exact entered _

theorem bindFunction_binds (well : VisitsWell visit) {node : Node}
    (spells : node.construct? = some .declaration) (defines : node.third.isA .declarator = true)
    (fits : node.Throughout Tree.Fits) (header : Option ScopeId) :
    Binds (bindFunction visit node header) fun _ annotations =>
      WalkableDefinition annotations node := by
  have shape : node.FitsDeclaration := fits.ofConstruct spells
  unfold Tree.FitsDeclaration at shape
  rw [if_pos defines] at shape
  rcases Option.isSome_iff_exists.mp shape.1 with ⟨name, same⟩
  have there : node.third.isNil = false := by
    rcases Reference.isA_cell defines with ⟨label, name, type, head, tail, third⟩
    rw [third]
    rfl
  unfold bindFunction
  dsimp only
  rw [there, if_neg (by decide), shape.2.1, if_neg (by decide), same]
  exact bindDefinition_binds well name header (Tree.isCell_of_construct? spells) fits

/-! ## Variables and declarations -/

theorem quiet_constantValue (type : Encoding) (initializer : Node) :
    Quiet (constantValue type initializer) := by
  unfold constantValue
  split
  · exact .after quiet_site fun _ => .after .read fun _ => quiet_answer _
  · exact quiet_pure _

theorem quiet_variableKind (type : Encoding) (initializer : Node) (storage : Storage) :
    Quiet (variableKind type initializer storage) := by
  refine .after (quiet_constantValue _ _) fun value => ?_
  split
  · exact quiet_pure _
  · exact .after quiet_current fun _ => .after (quiet_ask _) fun _ => quiet_pure _

theorem quiet_bindDeclarator (well : VisitsWell visit) {declarator : Node}
    (fits : declarator.Throughout Tree.Fits) (storage : Storage) (header : Option ScopeId) :
    Quiet (bindDeclarator visit storage header declarator) := by
  have elements : Quiet (visitElements visit declarator) := (visitElements_binds well fits).quiet
  unfold bindDeclarator
  split
  · exact elements
  · refine .after (quiet_answer _) fun span => ?_
    split
    · exact quiet_bindPrototype well fits _ _ _ _ _
    · exact .after (quiet_variableKind _ _ _) fun _ =>
        .after (.discard (quiet_declareNamed _ _ _ _ _)) fun _ => elements

theorem bindDeclaration_binds (well : VisitsWell visit) {node : Node}
    (spells : node.construct? = some .declaration) (fits : node.Throughout Tree.Fits) :
    Binds (bindDeclaration visit node) fun _ annotations => Walkable annotations node := by
  have shape : node.FitsDeclaration := fits.ofConstruct spells
  refine .after quiet_takeHeader fun header => ?_
  dsimp only
  split
  · next defines =>
    refine .bind (bindType_binds well (fits.nth 1) _ _) fun _ => ?_
    exact (bindFunction_binds well spells defines fits header).weaken
      fun _ annotations definition type =>
        Reference.walkable_definition spells shape defines type definition
  · next lists =>
    have declarators : Quiet ((node.third.present.filter (·.isA .declarator)).forM
        (bindDeclarator visit (Storage.ofSpecifiers node.first) header)) := by
      refine (Binds.forM (fun _ _ => True) fun declarator member => ?_).quiet
      exact quiet_bindDeclarator well
        ((fits.nth 2).present declarator (List.mem_filter.mp member).1) _ _
    have behind : ∀ {step : Bind Unit}, (Binds step fun _ annotations =>
        WalkableType annotations node.second) → Binds (do
          step
          (node.third.present.filter (·.isA .declarator)).forM
            (bindDeclarator visit (Storage.ofSpecifiers node.first) header))
          fun _ annotations => Walkable annotations node := by
      intro step types
      refine .bind types fun _ => declarators.weaken fun _ annotations _ type => ?_
      exact Reference.walkable_declaration spells shape (Bool.eq_false_iff.mpr lists) type
    split
    · exact behind (bindType_binds well (fits.nth 1) _ _)
    · exact behind (bindType_binds well (fits.nth 1) _ _)

theorem quiet_bindTypedefName (declarator : Node) : Quiet (bindTypedefName declarator) := by
  unfold bindTypedefName
  split
  · exact quiet_pure _
  · refine .after quiet_current fun scope => ?_
    have named : ∀ target : Option SymbolId, Quiet (do
        let span ← answer declarator.declaredPlace
        declareQuietly scope (.ofDeclaration ‹Encoding› (.typedefName target)
          (declarator.type?.getD .empty) scope declarator.id span)) :=
      fun target => .after (quiet_answer _) fun _ => quiet_declareQuietly _ _
    refine .after ?_ named
    unfold aliasedSymbol
    dsimp only
    split
    · exact .after quiet_site fun _ => quiet_answer _
    · exact quiet_pure _

theorem quiet_bindTypedef (well : VisitsWell visit) {node : Node} (fits : node.Throughout Tree.Fits) :
    Quiet (bindTypedef visit node) :=
  .after (bindType_binds well (fits.nth 1) _ _).quiet fun _ => .forMQuiet quiet_bindTypedefName

/-! ## Templates -/

theorem quiet_bindTemplateParameter (scope : ScopeId) (parameter : Node) :
    Quiet (bindTemplateParameter scope parameter) := by
  unfold bindTemplateParameter
  split
  · dsimp only
    split
    · exact quiet_declareQuietly _ _
    · exact quiet_pure _
  · split
    · split
      · exact quiet_pure _
      · exact .after (quiet_answer _) fun _ => quiet_declareQuietly _ _
    · exact quiet_pure _

theorem bindTemplate_binds (well : VisitsWell visit) {node : Node}
    (spells : node.construct? = some .templateDecl) (fits : node.Throughout Tree.Fits) :
    Binds (bindTemplate visit node) fun _ annotations => Walkable annotations node := by
  have there : (node.nth 4).isNil = false := fits.ofConstruct spells
  unfold bindTemplate
  dsimp only
  rw [there, if_neg (by decide)]
  refine .after quiet_takeHeader fun header => .after quiet_current fun scope =>
    .after (quiet_scopeFor _ _ _) fun inner => ?_
  refine .bind (annotate_binds node inner (Tree.isCell_of_construct? spells)) fun _ => ?_
  refine .after (.forMQuiet (quiet_bindTemplateParameter inner)) fun _ => ?_
  refine .after (.modify fun _ => rfl) fun _ => .bind (well _ (fits.nth 4)) fun _ => ?_
  have cleared : Quiet (modify fun state => { state with header := none } : Bind Unit) :=
    .modify fun _ => rfl
  exact cleared.weaken fun _ annotations _ declaration has =>
    Reference.walkable_template spells has declaration

/-! ## Using -/

theorem quiet_bindUsingDirective {node : Node} (named : node.name?.isSome = true) :
    Quiet (bindUsingDirective node) := by
  rcases Option.isSome_iff_exists.mp named with ⟨name, same⟩
  unfold bindUsingDirective
  rw [same]
  refine .after (quiet_answer _) fun span => .after quiet_current fun scope =>
    .after (quiet_ask _) fun here => ?_
  split
  · exact quiet_report _ _ _
  · refine .after (quiet_answer _) fun text => .after (quiet_ask _) fun found => ?_
    split
    · refine .after (quiet_ask _) fun target => ?_
      split
      · exact .discard (quiet_perform _)
      · exact quiet_report _ _ _
    · exact quiet_report _ _ _
    · exact quiet_report _ _ _
    · exact quiet_reportLookup _ _

theorem quiet_bindUsed (name key : Encoding) (span : Option Span) (id : SymbolId) :
    Quiet (bindUsed name key span id) := by
  refine .after quiet_current fun scope => .after (quiet_ask _) fun here =>
    .after (quiet_ask _) fun obstacle => ?_
  split
  · exact .after (quiet_answer _) fun _ => quiet_reportRefusal _ _ _
  · exact .discard (quiet_perform _)

theorem quiet_bindUsingDeclaration {node : Node} (named : node.name?.isSome = true) :
    Quiet (bindUsingDeclaration node) := by
  rcases Option.isSome_iff_exists.mp named with ⟨name, same⟩
  unfold bindUsingDeclaration
  rw [same]
  refine .after (quiet_answer _) fun span => .after quiet_site fun site =>
    .after (quiet_answer _) fun found => ?_
  split
  · exact quiet_reportLookup _ _
  · split
    · exact quiet_pure _
    · split
      · exact .after (quiet_answer _) fun _ => quiet_report _ _ _
      · exact .after (quiet_answer _) fun _ => .after (quiet_answer _) fun _ =>
          .forMQuiet (quiet_bindUsed _ _ _)

/-! ## Statements and expressions -/

theorem bindBlock_binds (well : VisitsWell visit) {node : Node} {construct : Construct}
    (spells : node.construct? = some construct)
    (which : construct = .block ∨ construct = .forStatement) (fits : node.Throughout Tree.Fits) :
    Binds (bindBlock visit node) fun _ annotations => Walkable annotations node := by
  refine .after quiet_current fun outer => .after (quiet_scopeFor _ _ _) fun scope => ?_
  refine .bind (annotate_binds node scope (Tree.isCell_of_construct? spells)) fun _ => ?_
  exact (Binds.inScope (visitElements_binds well fits)).weaken fun _ annotations elements has =>
    Reference.walkable_block spells which has elements

theorem bindFor_binds (well : VisitsWell visit) {node : Node}
    (spells : node.construct? = some .forStatement) (fits : node.Throughout Tree.Fits) :
    Binds (bindFor visit node) fun _ annotations => Walkable annotations node := by
  have there : (node.nth 7).isNil = false := fits.ofConstruct spells
  unfold bindFor
  rw [there, if_neg (by decide)]
  exact bindBlock_binds well spells (.inr rfl) fits

theorem quiet_bindMemberAccess (well : VisitsWell visit) {node : Node}
    (fits : node.Throughout Tree.Fits) : Quiet (bindMemberAccess visit node) := by
  have object : Quiet (if !node.first.isNil then visit node.first else pure ()) := by
    split
    · exact (well _ (fits.nth 0)).quiet
    · exact quiet_pure _
  refine .after .read fun surroundings => ?_
  dsimp only
  by_cases reports : surroundings.options.reportMemberAccess = true
  · rw [if_pos reports]
    exact .after (quiet_answer _) fun _ => .after (quiet_report _ _ _) fun _ => object
  · rw [if_neg reports]
    exact object

/-! ## Nodes -/

/-- A node whose elements are visited by binding, whether the pass over uses visits them
too or not. -/
theorem visitElements_walkable (well : VisitsWell visit) {node : Node} {construct : Construct}
    (spells : node.construct? = some construct) (fits : node.Throughout Tree.Fits)
    (plain : (construct.hidesParts || Reference.visitsElements construct) = true)
    (hidden : construct.hidesParts = true → node.Unscoped) :
    Binds (visitElements visit node) fun _ annotations => Walkable annotations node := by
  refine (visitElements_binds well fits).weaken fun _ annotations elements => ?_
  cases hides : construct.hidesParts with
  | true => exact Reference.walkable_of_unscoped (hidden hides)
  | false =>
    rw [hides, Bool.false_or] at plain
    exact Reference.walkable_elements spells plain elements

theorem bindNode_binds (well : VisitsWell visit) (node : Node) (fits : node.Throughout Tree.Fits) :
    Binds (bindNode visit node) fun _ annotations => Walkable annotations node := by
  unfold bindNode
  cases spells : node.construct? with
  | none =>
    refine .pure fun annotations => Reference.walkable_of_unscoped ?_
    cases node with
    | nil => exact .nil
    | leaf label token => exact .leaf label token
    | cell label construct name type head tail => cases spells
  | some construct =>
    have shape := fits.ofConstruct spells
    have walkable : ∀ {step : Bind Unit}, Quiet step → construct.isOpaque = true →
        Binds step fun _ annotations => Walkable annotations node :=
      fun quiet isOpaque => quiet.weaken fun _ annotations _ =>
        Reference.walkable_of_unscoped (Tree.unscoped_of_isOpaque spells isOpaque)
    cases construct with
    | namespaceSpec => exact bindNamespace_binds well spells fits
    | classSpec => exact bindClass_binds well spells fits _ _
    | enumSpec =>
      exact (quiet_bindEnum shape).weaken fun _ annotations _ => Reference.walkable_enum spells shape
    | declaration => exact bindDeclaration_binds well spells fits
    | typedefDecl => exact walkable (quiet_bindTypedef well fits) rfl
    | templateDecl => exact bindTemplate_binds well spells fits
    | usingDirective => exact walkable (quiet_bindUsingDirective shape) rfl
    | usingDeclaration => exact walkable (quiet_bindUsingDeclaration shape) rfl
    | block => exact bindBlock_binds well spells (.inl rfl) fits
    | forStatement => exact bindFor_binds well spells fits
    | dotMemberExpr | arrowMemberExpr =>
      exact (quiet_bindMemberAccess well fits).weaken fun _ annotations _ =>
        Reference.walkable_of_unscoped (shape rfl)
    | _ => exact visitElements_walkable well spells fits rfl shape

/-- Binding a tree that fits, whatever its size, leaves it walkable. -/
theorem visitsWell_bindWithin (size : Nat) : VisitsWell (bindWithin size) := by
  induction size with
  | zero => exact fun node fits surroundings state => ⟨.endless, rfl⟩
  | succ size ih => exact bindNode_binds ih

theorem bindTree_binds {tree : Node} (fits : tree.Throughout Tree.Fits) :
    Binds (bindTree tree) fun _ annotations =>
      ∀ element ∈ tree.present, Walkable annotations element :=
  visitElements_binds (visitsWell_bindWithin tree.size) fits

end Binding
end CppNames
