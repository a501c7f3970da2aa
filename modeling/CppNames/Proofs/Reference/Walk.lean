import CppNames.Proofs.Tree.Shape
import CppNames.Reference.Walk

namespace CppNames

/-!
# What the pass over uses needs

The pass that finds uses stops at a malformed construct only where a function has no body, a
call no callee, or a node that must have a scope has none noted.  `Walkable` says of a node
that under given notes, and under any notes that hold more, the pass does not stop there.  A
tree that needs no scope is walkable under all notes; what else is needed is told construct
by construct.
-/

namespace Annotations

/-- Whether a scope is noted on a node. -/
def Has (annotations : Annotations) (node : Node) : Prop :=
  (annotations.scope? node).isSome = true

/-- Every node with a scope in the earlier notes has one in the later notes. -/
def Within (earlier later : Annotations) : Prop := ∀ node, earlier.Has node → later.Has node

theorem Within.refl (annotations : Annotations) : annotations.Within annotations :=
  fun _ has => has

theorem Within.trans {first second third : Annotations} (early : first.Within second)
    (late : second.Within third) : first.Within third :=
  fun node has => late node (early node has)

theorem within_cons (annotations : Annotations) (entry : Tree.NodeId × ScopeId) :
    annotations.Within (entry :: annotations) := by
  intro node has
  unfold Has scope? at has ⊢
  cases label : node.label? with
  | none => rw [label] at has; cases has
  | some id =>
    rw [label] at has
    simp only [Option.bind_some, List.find?_cons, Option.isSome_map] at has ⊢
    split
    · rfl
    · exact has

theorem has_cons_self (annotations : Annotations) {node : Node} (list : node.isCell = true)
    (scope : ScopeId) : Has ((node.id, scope) :: annotations) node := by
  cases node with
  | nil => cases list
  | leaf label token => cases list
  | cell label construct name type head tail =>
    simp [Has, scope?, Tree.label?, Tree.id]

end Annotations

namespace Reference

/-! ## Passing -/

variable {α β : Type}

/-- A step of the pass that meets no malformed construct. -/
def Passes (step : Except PassError α) : Prop := ∀ error, step ≠ .error (.shape error)

theorem Passes.ok (value : α) : Passes (.ok value) := by
  intro error same
  cases same

theorem Passes.fault (fault : Fault) : Passes (.error (.fault fault) : Except PassError α) := by
  intro error same
  cases same

/-- A step behind one that may be assumed to end with a result. -/
theorem Passes.bindOk {step : Except PassError α} {next : α → Except PassError β}
    (first : Passes step) (rest : ∀ value, step = .ok value → Passes (next value)) :
    Passes (step >>= next) := by
  cases step with
  | error error =>
    intro shape same
    exact first shape (by cases same; rfl)
  | ok value => exact rest value rfl

theorem Passes.bind {step : Except PassError α} {next : α → Except PassError β}
    (first : Passes step) (rest : ∀ value, Passes (next value)) : Passes (step >>= next) :=
  first.bindOk fun value _ => rest value

theorem Passes.answer (outcome : Outcome α) : Passes (answer outcome) := by
  intro error same
  cases outcome <;> cases same

theorem Passes.mapM {visit : β → Except PassError α} {nodes : List β}
    (all : ∀ node ∈ nodes, Passes (visit node)) : Passes (nodes.mapM visit) := by
  induction nodes with
  | nil => exact .ok _
  | cons first rest ih =>
    rw [List.mapM_cons]
    refine .bind (all first (List.mem_cons_self ..)) fun value => ?_
    refine .bind (ih fun node member => all node (List.mem_cons_of_mem _ member)) fun values => ?_
    exact .ok _

theorem passes_visitAll {visit : Visit} {scope : ScopeId} {nodes : List Node}
    (all : ∀ node ∈ nodes, Passes (visit scope node)) : Passes (visitAll visit scope nodes) :=
  .bind (.mapM all) fun _ => .ok _

theorem passes_visitElements {visit : Visit} {scope : ScopeId} {node : Node}
    (all : ∀ element ∈ node.present, Passes (visit scope element)) :
    Passes (visitElements visit scope node) :=
  passes_visitAll all

theorem passes_lookUp (setting : Setting) (context : LookupContext) (scope : ScopeId) (use : Use) :
    Passes (lookUp setting context scope use) :=
  .answer _

theorem passes_scopeOf {setting : Setting} {node : Node} (construct : Construct)
    (has : setting.annotations.Has node) : Passes (setting.scopeOf node construct) := by
  unfold Setting.scopeOf
  cases scope : setting.annotations.scope? node with
  | none =>
    unfold Annotations.Has at has
    rw [scope] at has
    cases has
  | some found => exact .ok found

/-! ## Trees that need no scope -/

theorem passes_visitToken (setting : Setting) (scope : ScopeId) (token : Token) :
    Passes (visitToken setting scope token) := by
  unfold visitToken
  split
  · exact passes_lookUp _ _ _ _
  · exact .ok _

theorem passes_visitName (setting : Setting) (scope : ScopeId) (node : Node) :
    Passes (visitName setting scope node) := by
  unfold visitName
  split
  · exact .bind (.answer _) fun use => passes_lookUp _ _ _ _
  · exact .ok _

theorem passes_visitCall {setting : Setting} {visit : Visit} {scope : ScopeId} {node : Node}
    (there : node.first.isNil = false) (callee : Passes (visit scope node.first))
    (operands : Passes (visit scope node.third)) :
    Passes (visitCall setting visit scope node) := by
  have behind : ∀ called : Findings, Passes (do return called ++ (← visit scope node.third)) :=
    fun called => .bind operands fun found => .ok _
  unfold visitCall
  dsimp only
  rw [there, if_neg (by decide)]
  split
  · split
    · exact .bind (.answer _) fun use => .bind (.answer _) behind
    · exact .bind callee behind
  · exact .bind callee behind

/-- A declarator: the parameters of a function are visited as its other elements are, but
in their own scope. -/
theorem passes_visitDeclarator {setting : Setting} {visit : Visit} {scope : ScopeId}
    {declarator : Node}
    (elements : ∀ element ∈ declarator.present, Passes (visit scope element))
    (parameters : ∀ element ∈ declarator.present, element.isA .cons = true →
      ∀ inner, Passes (visitElements visit inner element)) :
    Passes (visitDeclarator setting visit scope declarator) := by
  refine passes_visitAll fun element member => ?_
  have inside := List.mem_of_mem_eraseP member
  unfold visitDeclaratorElement
  split
  · split
    · next list => exact parameters element inside list _
    · exact elements element inside
  · exact elements element inside

theorem isA_cell {element : Node} {construct : Construct} (spells : element.isA construct = true) :
    ∃ label name type head tail, element = .cell label construct name type head tail := by
  cases element with
  | nil => cases spells
  | leaf label token => cases spells
  | cell label other name type head tail =>
    have same : other = construct := Option.some.inj (eq_of_beq spells)
    exact ⟨label, name, type, head, tail, by rw [same]⟩

/-- Visiting a plain list means to visit its elements. -/
theorem visitWithin_cons {element : Node} (list : element.isA .cons = true) (setting : Setting)
    (size : Nat) (scope : ScopeId) :
    visitWithin setting (size + 1) scope element =
      visitElements (visitWithin setting size) scope element := by
  rcases isA_cell list with ⟨label, name, type, head, tail, rfl⟩
  rfl

/-- The pass does not stop in a tree that needs no scope. -/
theorem passes_of_unscoped {node : Node} (unscoped : node.Unscoped) (setting : Setting) :
    ∀ size scope, Passes (visitWithin setting size scope node) := by
  induction unscoped with
  | nil =>
    intro size scope
    cases size <;> exact .ok _
  | leaf label token =>
    intro size scope
    cases size with
    | zero => exact .ok _
    | succ size => exact passes_visitToken setting scope token
  | @closed label construct name type head tail isOpaque =>
    intro size scope
    cases size with
    | zero => exact .ok _
    | succ size =>
      cases construct <;> cases isOpaque
      case name.refl => exact passes_visitName _ _ _
      all_goals exact .ok _
  | parameter _ ih =>
    intro size scope
    cases size with
    | zero => exact .ok _
    | succ size => exact ih size scope
  | @parts label construct name type head tail transparent callee elements ih =>
    intro size scope
    cases size with
    | zero => exact .ok _
    | succ size =>
      have elements : ∀ element ∈ (Tree.cell label construct name type head tail).present,
          Passes (visitWithin setting size scope element) :=
        fun element member => ih element (Tree.mem_present member).1 size scope
      have part : ∀ position,
          Passes (visitWithin setting size scope ((Tree.cell label construct name type head tail).nth
            position)) := by
        intro position
        rcases Tree.nth_mem_elements (.cell label construct name type head tail) position with
          absent | member
        · rw [absent]
          cases size <;> exact .ok _
        · exact ih _ member size scope
      cases construct <;> cases transparent
      case declarator.refl =>
        refine passes_visitDeclarator elements fun element member list inner => ?_
        rw [← visitWithin_cons list]
        exact ih element (Tree.mem_present member).1 (size + 1) inner
      case funcallExpr.refl => exact passes_visitCall (callee rfl) (part 0) (part 2)
      case dotMemberExpr.refl => exact part 0
      case arrowMemberExpr.refl => exact part 0
      case castExpr.refl => exact part 3
      case newExpr.refl => exact part 3
      case fstyleCastExpr.refl => exact part 2
      case typeidExpr.refl => exact part 2
      case sizeofExpr.refl =>
        change Passes (if _ then _ else _)
        split
        · exact part 1
        · exact .ok _
      all_goals exact passes_visitElements elements

/-! ## Trees that need scopes -/

/-- Under the given notes, and under any that hold more, the pass does not stop in a node. -/
def Walkable (annotations : Annotations) (node : Node) : Prop :=
  ∀ setting : Setting, annotations.Within setting.annotations →
    ∀ size scope, Passes (visitWithin setting size scope node)

section Walkable

variable {annotations : Annotations} {node : Node}

theorem walkable_of_unscoped (unscoped : node.Unscoped) : Walkable annotations node :=
  fun setting _ => passes_of_unscoped unscoped setting

/-- A node is walkable where the pass does not stop at it, given that it does not stop in its
parts. -/
theorem walkable_of_visitNode
    (passes : ∀ (setting : Setting), annotations.Within setting.annotations →
      ∀ size scope, Passes (visitNode setting (visitWithin setting size) scope node)) :
    Walkable annotations node := by
  intro setting within size scope
  cases size with
  | zero => exact .ok _
  | succ size => exact passes setting within size scope

theorem walkable_nil : Walkable annotations .nil := walkable_of_unscoped .nil

/-- The constructs whose elements are visited, and of which nothing else is asked. -/
def visitsElements : Construct → Bool
  | .namespaceSpec | .classSpec | .enumSpec | .declaration | .templateDecl | .block | .forStatement
  | .typedefDecl | .usingDirective | .usingDeclaration => false
  | construct => !construct.hidesParts

theorem walkable_elements {construct : Construct} (spells : node.construct? = some construct)
    (plain : visitsElements construct = true)
    (elements : ∀ element ∈ node.present, Walkable annotations element) :
    Walkable annotations node := by
  refine walkable_of_visitNode fun setting within size scope => ?_
  have visits : Passes (visitElements (visitWithin setting size) scope node) :=
    passes_visitElements fun element member => elements element member setting within size scope
  unfold visitNode
  rw [spells]
  cases construct <;> cases plain
  case name.refl => exact passes_visitName _ _ _
  case accessSpec.refl => exact .ok _
  case typeId.refl => exact .ok _
  all_goals exact visits

theorem walkable_namespace (spells : node.construct? = some .namespaceSpec)
    (has : annotations.Has node)
    (elements : ∀ element ∈ node.third.present, Walkable annotations element) :
    Walkable annotations node := by
  refine walkable_of_visitNode fun setting within size scope => ?_
  unfold visitNode
  rw [spells]
  refine .bind (passes_scopeOf _ (within node has)) fun inner => ?_
  exact passes_visitElements fun element member => elements element member setting within size inner

/-- What the pass needs of a class: no body, or a noted scope and a body whose elements are
walkable. -/
def WalkableClass (annotations : Annotations) (node : Node) : Prop :=
  (node.nth 3).isNil = true ∨ (annotations.Has node ∧
    ∀ element ∈ (node.nth 3).present, Walkable annotations element)

theorem walkable_class (spells : node.construct? = some .classSpec)
    (body : WalkableClass annotations node) : Walkable annotations node := by
  refine walkable_of_visitNode fun setting within size scope => ?_
  unfold visitNode
  rw [spells]
  change Passes (visitClass setting (visitWithin setting size) node)
  unfold visitClass
  dsimp only
  split
  · exact .ok _
  · next there =>
    rcases body with absent | defined
    · exact absurd absent there
    · refine .bind (passes_scopeOf _ (within node defined.1)) fun inner => ?_
      exact passes_visitElements fun element member =>
        defined.2 element member setting within size inner

theorem walkable_enum (spells : node.construct? = some .enumSpec) (fits : node.FitsEnum) :
    Walkable annotations node := by
  refine walkable_of_visitNode fun setting within size scope => ?_
  unfold visitNode
  rw [spells]
  refine passes_visitAll fun value member => ?_
  rcases List.mem_map.mp member with ⟨item, inside, rfl⟩
  have both := List.mem_filter.mp inside
  exact passes_of_unscoped (fits.2.2 item both.1 both.2) setting size scope

/-- What the pass needs of the words of a type: the classes and enumerations among them are
walkable. -/
def WalkableType (annotations : Annotations) (words : Node) : Prop :=
  ∀ word ∈ words.typeWords, (word.isA .classSpec || word.isA .enumSpec) = true →
    Walkable annotations word

theorem passes_visitType {setting : Setting} {words : Node} (walkable : WalkableType annotations words)
    (within : annotations.Within setting.annotations) (size : Nat) (scope : ScopeId) :
    Passes (visitType setting (visitWithin setting size) scope words) := by
  refine passes_visitAll fun word member => ?_
  unfold visitTypeWord
  split
  · next specifies => exact walkable word member specifies setting within size scope
  · refine .bind (.answer _) fun inBody => ?_
    split
    · split
      · exact .bind (.answer _) fun use => passes_lookUp _ _ _ _
      · exact .ok _
    · exact .ok _

theorem passes_visitDeclarator_of_unscoped {declarator : Node} (unscoped : declarator.Unscoped)
    (declares : declarator.isA .declarator = true) (setting : Setting) (size : Nat) (scope : ScopeId) :
    Passes (visitDeclarator setting (visitWithin setting size) scope declarator) := by
  rcases isA_cell declares with ⟨label, name, type, head, tail, rfl⟩
  exact passes_of_unscoped unscoped setting (size + 1) scope

/-- What the pass needs of the definition of a function. -/
structure WalkableDefinition (annotations : Annotations) (node : Node) : Prop where
  has : annotations.Has node
  members : (node.nth 3).isA .block = true ∨ Walkable annotations (node.nth 3)
  body : ∀ element ∈ node.last.present, Walkable annotations element

theorem walkable_definition (spells : node.construct? = some .declaration)
    (fits : node.FitsDeclaration) (defines : node.third.isA .declarator = true)
    (type : WalkableType annotations node.second)
    (definition : WalkableDefinition annotations node) : Walkable annotations node := by
  unfold Tree.FitsDeclaration at fits
  rw [if_pos defines] at fits
  refine walkable_of_visitNode fun setting within size scope => ?_
  unfold visitNode
  rw [spells]
  refine .bind (passes_visitType type within size scope) fun types => ?_
  rw [if_pos defines]
  have bodies : ∀ inner, Passes (visitBody (visitWithin setting size) inner node node.last) := by
    intro inner
    have elements : Passes (visitElements (visitWithin setting size) inner node.last) :=
      passes_visitElements fun element member =>
        definition.body element member setting within size inner
    unfold visitBody
    dsimp only
    split
    · exact .bind (.ok _) fun initializers => .bind elements fun found => .ok _
    · next visited =>
      rcases definition.members with isBlock | walkable
      · exact absurd (by rw [isBlock, Bool.or_true]) visited
      · exact .bind (walkable setting within size inner) fun initializers =>
          .bind elements fun found => .ok _
  have function : Passes (visitFunction setting (visitWithin setting size) scope node) := by
    unfold visitFunction
    dsimp only
    rw [if_pos fits.2.1]
    refine .bind (passes_visitDeclarator_of_unscoped fits.2.2 defines setting size scope)
      fun head => ?_
    refine .bind (passes_scopeOf _ (within node definition.has)) fun inner => ?_
    exact .bind (bodies inner) fun body => .ok _
  exact .bind function fun rest => .ok _

theorem walkable_declaration (spells : node.construct? = some .declaration)
    (fits : node.FitsDeclaration) (lists : node.third.isA .declarator = false)
    (type : WalkableType annotations node.second) : Walkable annotations node := by
  unfold Tree.FitsDeclaration at fits
  rw [if_neg (by rw [lists]; decide)] at fits
  refine walkable_of_visitNode fun setting within size scope => ?_
  unfold visitNode
  rw [spells]
  refine .bind (passes_visitType type within size scope) fun types => ?_
  rw [if_neg (by rw [lists]; decide)]
  have visits : Passes (visitDeclarators setting (visitWithin setting size) scope node.third) := by
    refine passes_visitAll fun declarator member => ?_
    have both := List.mem_filter.mp member
    exact passes_visitDeclarator_of_unscoped (fits declarator both.1 both.2) both.2 setting size scope
  exact .bind visits fun rest => .ok _

theorem walkable_template (spells : node.construct? = some .templateDecl)
    (has : annotations.Has node) (declaration : Walkable annotations (node.nth 4)) :
    Walkable annotations node := by
  refine walkable_of_visitNode fun setting within size scope => ?_
  unfold visitNode
  rw [spells]
  refine .bind (passes_scopeOf _ (within node has)) fun inner => ?_
  exact declaration setting within size inner

theorem walkable_block {construct : Construct} (spells : node.construct? = some construct)
    (which : construct = .block ∨ construct = .forStatement) (has : annotations.Has node)
    (elements : ∀ element ∈ node.present, Walkable annotations element) :
    Walkable annotations node := by
  refine walkable_of_visitNode fun setting within size scope => ?_
  have visits : Passes (do
      visitElements (visitWithin setting size) (← setting.scopeOf node construct) node) := by
    refine .bind (passes_scopeOf _ (within node has)) fun inner => ?_
    exact passes_visitElements fun element member => elements element member setting within size inner
  unfold visitNode
  rw [spells]
  rcases which with rfl | rfl
  · exact visits
  · exact visits

end Walkable

end Reference
end CppNames
