import CppNames.Binding.Bind
import CppNames.Proofs.Binding.KeepDeclaration
import CppNames.Proofs.Lookup.Outward

namespace CppNames

/-!
# Trees and passes keep tables in form

Whatever a node spells, binding it keeps the table in form if binding the nodes inside it does.
By induction on the size of a tree this holds of the whole tree, and so of a pass, whether it
comes to its end or stops at a malformed construct.

A table may be bound again and again, with the same tree or with others, and it stays consistent all
the same.  The one thing that is asked of the trees is that a node is the same wherever it occurs:
what carries one number spells one construct.
-/

namespace Binding

open Table

variable {setting : Setting} {surroundings : Surroundings} {table : Table}
  {pending : Option ScopeId} {visit : Visit}

/-! ## Using -/

theorem keeps_bindUsingDirective (ready : Ready setting surroundings table pending) (node : Node) :
    Keeps setting surroundings table pending (bindUsingDirective node) fun _ _ left =>
      pending = left := by
  have reported : ∀ {message span arguments}, Keeps setting surroundings table pending
      (report span message arguments) fun _ _ left => pending = left :=
    fun {message span arguments} => .looks ready (looks_report span message arguments) fun _ => rfl
  unfold bindUsingDirective
  split
  · exact .looks ready (reads_malformed _ _ _).looks fun _ => rfl
  refine .behind ready (looks_answer _) fun span _ => ?_
  refine .behind ready reads_current fun scope _ => .behind ready (looks_ask _) fun around _ => ?_
  split
  · exact reported
  refine .behind ready (looks_answer _) fun text _ => .behind ready (looks_ask _) fun denoted _ => ?_
  split
  · next target =>
    refine .behind ready (reads_ask _) fun found read => ?_
    split
    · next isNamespace =>
      have has : table.HasShape target .namespaceBody :=
        ⟨found, read, (Region.isNamespace_iff _).mp isNamespace⟩
      exact keeps_addNominated ready has
    · exact reported
  · exact reported
  · exact reported
  · exact .looks ready (looks_reportLookup _ _) fun _ => rfl

theorem keeps_bindUsed (ready : Ready setting surroundings table pending) {name key : Encoding}
    {span : Option Span} {id : SymbolId} (there : table.HasSymbol id) (aliases : setting.aliasing) :
    Keeps setting surroundings table pending (bindUsed name key span id) fun _ _ left =>
      pending = left := by
  refine .behind ready reads_current fun scope _ => .behind ready (looks_ask _) fun around _ => ?_
  refine .behind ready (looks_ask _) fun previous _ => ?_
  split
  · exact .behind ready (looks_answer _) fun _ _ =>
      .looks ready (looks_reportRefusal _ _ _) fun _ => rfl
  · exact .discard (keeps_perform ready fun _ _ done => ready.formed.makeVisible there aliases done)
      fun _ _ _ done => done.2

theorem keeps_bindUsingDeclaration (ready : Ready setting surroundings table pending)
    (node : Node) (aliases : setting.aliasing) :
    Keeps setting surroundings table pending (bindUsingDeclaration node) fun _ _ left =>
      pending = left := by
  unfold bindUsingDeclaration
  split
  · exact .looks ready (reads_malformed _ _ _).looks fun _ => rfl
  refine .behind ready (looks_answer _) fun span _ => .behind ready reads_site fun here same => ?_
  subst same
  refine .behind ready (reads_answer _) fun looked ran => ?_
  split
  · exact .looks ready (looks_reportLookup _ _) fun _ => rfl
  · next found =>
    split
    · exact .pure ready rfl
    split
    · exact .behind ready (looks_answer _) fun _ _ =>
        .looks ready (looks_report _ _ _) fun _ => rfl
    refine .behind ready (looks_answer _) fun last _ => .behind ready (looks_answer _) fun key _ => ?_
    exact keeps_forM ready rfl fun id member later left grows same ready =>
      (keeps_bindUsed ready (grows.hasSymbol (allThere_of_lookup ran id member)) aliases).weaken
        fun _ _ _ next => same.trans next

/-! ## Blocks and expressions -/

theorem keeps_bindBlock (well : VisitsInForm visit)
    (ready : Ready setting surroundings table pending) {node : Node}
    (suits : Suits setting table node.preorder)
    (isBlock : node.isA .block = true ∨ node.isA .forStatement = true) :
    Keeps setting surroundings table pending (bindBlock visit node) fun _ _ _ => True := by
  have own : (setting.content node.id = .block ∨ setting.content node.id = .forStatement) ∧
      node.id ∈ setting.noted :=
    isBlock.elim (fun is => (suits.self is).imp .inl And.left)
      fun is => (suits.self is).imp .inr And.left
  rcases own with ⟨spells, noted⟩
  have bears : (setting.content node.id).Bears node.id .block := by
    rcases spells with is | is
    · rw [is]
      exact .inr rfl
    · rw [is]
      rfl
  refine .behind ready reads_current fun here same => ?_
  subst same
  refine .plainly suits (keeps_scopeFor ready.plain ready.current.hasScope ?_ bears ⟨noted, ?_⟩
    (ready.plain.formed.outside_of_isOpen ready.current) ?_) ?_
  · exact ⟨rfl, rfl, fun _ member => nomatch member⟩
  · rcases spells with is | is <;> rw [is] <;> decide
  · rintro (impossible | impossible) <;> cases impossible
  rintro scope after left ready suits _ ⟨rfl, ⟨shape, has, bears⟩, _⟩
  have isOpen : after.Open scope := by
    refine has.isOpen ?_
    have bears : (setting.content node.id).Bears node.id shape := bears
    rcases spells with is | is
    · rw [is] at bears
      rcases bears with rfl | rfl <;> rfl
    · rw [is] at bears
      cases bears
      rfl
  have elements : Suits setting.inward after (Tree.parts node.present) := by
    refine suits.inward (Tree.parts_present_sublist node) fun part member => ?_
    have there := isBlock.elim mem_preorder_of_isA mem_preorder_of_isA
    refine suits.inner node there part ?_
    rw [Tree.innerParts_of_isA (isBlock.imp_right .inl)]
    exact (Tree.parts_sublist List.filter_sublist).subset member
  refine .annotating ready noted (.inward ready (keeps_visits (ready.inward isOpen) elements
    .none fun item _ _ _ _ _ _ _ ready suits _ => well item ready suits))

theorem keeps_bindFor (well : VisitsInForm visit)
    (ready : Ready setting surroundings table pending) {node : Node}
    (suits : Suits setting table node.preorder) (isFor : node.isA .forStatement = true) :
    Keeps setting surroundings table pending (bindFor visit node) fun _ _ _ => True := by
  unfold bindFor
  split
  · exact .looks ready (reads_malformed _ _ _).looks fun _ => trivial
  · exact keeps_bindBlock well ready suits (.inr isFor)

theorem keeps_bindMemberAccess (well : VisitsInForm visit)
    (ready : Ready setting surroundings table pending) {node : Node}
    (suits : Suits setting table node.preorder) :
    Keeps setting surroundings table pending (bindMemberAccess visit node) fun _ _ _ => True := by
  have object : Keeps setting surroundings table pending (visit node.first) fun _ _ _ => True :=
    well node.first ready (suits.nth 0)
  have nothing : Keeps setting surroundings table pending (pure ()) fun _ _ _ => True :=
    .pure ready trivial
  refine .behind ready looks_read fun here _ => ?_
  dsimp only
  split <;> split
  · exact .behind ready (looks_answer _) fun _ _ => .behind ready (looks_report _ _ _) fun _ _ => object
  · exact .behind ready (looks_answer _) fun _ _ => .behind ready (looks_report _ _ _) fun _ _ => nothing
  · exact object
  · exact nothing

/-! ## Nodes and trees -/

theorem visitsInForm_bindNode (well : VisitsInForm visit) : VisitsInForm (bindNode visit) := by
  intro setting surroundings table pending node ready suits
  unfold bindNode
  split
  · exact .pure ready trivial
  · next construct is =>
    have isA : node.isA construct = true := beq_of_eq is
    cases construct with
    | namespaceSpec => exact keeps_bindNamespace well ready suits isA
    | classSpec => exact keeps_bindClass well ready suits isA .none .none
    | enumSpec => exact keeps_bindEnum ready suits isA
    | declaration => exact keeps_bindDeclaration well ready suits isA
    | typedefDecl => exact keeps_bindTypedef well ready suits
    | templateDecl => exact keeps_bindTemplate well ready suits isA
    | usingDirective =>
      exact (keeps_bindUsingDirective ready node).weaken fun _ _ _ _ => trivial
    | usingDeclaration =>
      exact (keeps_bindUsingDeclaration ready node
        (suits.aliasing node (mem_preorder_of_isA isA) isA)).weaken fun _ _ _ _ => trivial
    | block => exact keeps_bindBlock well ready suits (.inl isA)
    | forStatement => exact keeps_bindFor well ready suits isA
    | dotMemberExpr | arrowMemberExpr => exact keeps_bindMemberAccess well ready suits
    | _ => exact keeps_visitElements well ready suits

theorem visitsInForm_bindWithin (size : Nat) : VisitsInForm (bindWithin size) := by
  induction size with
  | zero =>
    intro setting surroundings table pending node ready suits
    rintro state rfl rfl
    exact ⟨state.header, ready.formed⟩
  | succ size ih => exact visitsInForm_bindNode ih

/-- A pass over a tree keeps the table in form. -/
theorem keeps_bindTree (ready : Ready setting surroundings table pending) {tree : Node}
    (suits : Suits setting table tree.preorder) :
    Keeps setting surroundings table pending (bindTree tree) fun _ _ _ => True :=
  keeps_visitElements (visitsInForm_bindWithin tree.size) ready suits

end Binding

/-! ## Any number of passes -/


/-- What one pass binds. -/
structure Pass where
  file : String
  options : BindOptions
  tree : Node

/-- A table and the notes on a tree after some passes, each of which may have stopped early. -/
def Bound.afterPasses (bound : Bound) (passes : List Pass) : Bound :=
  passes.foldl (fun bound pass => (bind pass.file pass.options pass.tree bound).1) bound

/-- Nodes with one number spell the same. -/
def Tree.Coherent (trees : List Node) : Prop :=
  ∀ first ∈ Tree.parts trees, ∀ second ∈ Tree.parts trees,
    first.id = second.id → first.construct? = second.construct?

instance (trees : List Node) : Decidable (Tree.Coherent trees) :=
  inferInstanceAs (Decidable (∀ first ∈ Tree.parts trees, ∀ second ∈ Tree.parts trees,
    first.id = second.id → first.construct? = second.construct?))

/-- What the nodes of some trees spell. -/
def Tree.contentOf (trees : List Node) (label : Tree.NodeId) : Construct :=
  (((Tree.parts trees).find? (·.id == label)).bind Tree.construct?).getD .cons

theorem Tree.Coherent.spells {trees : List Node} (coherent : Tree.Coherent trees) {part : Node}
    (member : part ∈ Tree.parts trees) {construct : Construct}
    (spells : part.construct? = some construct) : Tree.contentOf trees part.id = construct := by
  unfold Tree.contentOf
  cases found : (Tree.parts trees).find? (·.id == part.id) with
  | none =>
    have other := List.find?_eq_none.mp found part member
    simp at other
  | some first =>
    have same : first.id = part.id := by simpa using List.find?_some found
    have agrees := coherent first (List.mem_of_find?_eq_some found) part member same
    rw [Option.bind_some, agrees, spells]
    rfl

/-- The table before anything is bound. -/
def Bound.fresh (searchesBases : Bool) : Bound where
  table := { Table.initial with searchesBases := searchesBases }

namespace Binding

open Table

/-- A pass begins in the global scope. -/
theorem Formed.ready {setting : Setting} {table : Table} (formed : Formed setting none table)
    (file : String) (options : BindOptions) : Ready setting ⟨file, options, global⟩ table none :=
  ⟨formed, formed.root.isOpen rfl, fun _ => .inl formed.root⟩

/-- A pass, whether it comes to its end or not, keeps the table in form. -/
theorem formed_bind {setting : Setting} {bound : Bound} (formed : Formed setting none bound.table)
    {tree : Node} (suits : Suits setting bound.table tree.preorder) (file : String)
    (options : BindOptions) : Formed setting none (bind file options tree bound).1.table := by
  have ends := keeps_bindTree (formed.ready file options) suits ⟨bound.table, bound.annotations, none, []⟩ rfl rfl
  unfold bind
  dsimp only
  cases result : bindTree tree ⟨file, options, global⟩ ⟨bound.table, bound.annotations, none, []⟩ with
  | error error after =>
    rw [result] at ends
    rcases ends with ⟨pending, formed⟩
    exact formed.taken
  | ok value after =>
    rw [result] at ends
    exact ends.1.formed.taken

theorem formed_fresh (setting : Setting) (unheld : setting.held = [])
    (unsettled : setting.settled = ∅) (searchesBases : Bool) :
    Formed setting none (Bound.fresh searchesBases).table := by
  have root : (Bound.fresh searchesBases).table.HasShape global .namespaceBody := ⟨_, rfl, rfl⟩
  have alone : ∀ {id scope}, (Bound.fresh searchesBases).table.scope id = .ok scope →
      scope.outer = none ∧ scope.region.shape = .namespaceBody := by
    intro id scope read
    rcases of_scope_initial searchesBases read with ⟨rfl, rfl⟩
    exact ⟨rfl, rfl⟩
  constructor
  · exact consistent_initial searchesBases
  · exact root
  · exact fun note member => absurd member List.not_mem_nil
  · intro id scope outer read around
    rw [(alone read).1] at around
    cases around
  · rintro id declaration ⟨scope, read, shape⟩
    rw [(alone read).2] at shape
    cases shape
  · exact nofun
  · intro _
    rw [unheld]
    constructor
    · refine ⟨fun _ => 0, ?_⟩
      rintro inner outer ⟨scope, read, around⟩
      rw [(alone read).1] at around
      cases around
    · exact fun _ member => absurd member List.not_mem_nil
    · rintro header (member | next)
      · exact absurd member List.not_mem_nil
      · cases next
    · exact fun _ _ => nofun
  · intro _
    rw [unsettled]
    constructor
    · rintro id outer _ ⟨scope, read, around⟩
      rw [(alone read).1] at around
      cases around
    · rintro header (member | next)
      · exact False.elim member
      · cases next
    · exact fun _ _ => nofun

/-- The setting for any number of passes over some trees. -/
def Setting.ofTrees (trees : List Node) : Setting where
  content := Tree.contentOf trees
  first := false
  held := []
  noted := Set.univ
  declaring := Set.univ
  aliasing := True
  inner := {label | ∃ node ∈ Tree.parts trees, ∃ part ∈ node.innerParts, part.id = label}
  inside := False
  settled := ∅

theorem suits_ofTrees {trees : List Node} (coherent : Tree.Coherent trees) {tree : Node}
    (inTrees : tree ∈ trees) (table : Table) :
    Suits (Setting.ofTrees trees) table tree.preorder where
  spells _ among _ spells :=
    coherent.spells ((Tree.preorder_sublist_of_mem inTrees).subset among) spells
  noted _ _ := trivial
  declaring _ _ := trivial
  aliasing _ _ _ := trivial
  fresh := nofun
  inside := nofun
  inner part among below member :=
    ⟨part, (Tree.preorder_sublist_of_mem inTrees).subset among, below, member, rfl⟩

theorem formed_afterPasses {trees : List Node} (coherent : Tree.Coherent trees)
    {passes : List Pass} (among : ∀ pass ∈ passes, pass.tree ∈ trees) {bound : Bound}
    (formed : Formed (Setting.ofTrees trees) none bound.table) :
    Formed (Setting.ofTrees trees) none (bound.afterPasses passes).table := by
  induction passes generalizing bound with
  | nil => exact formed
  | cons pass rest ih =>
    have suits := suits_ofTrees coherent (among pass (List.mem_cons_self ..)) bound.table
    exact ih (fun other member => among other (List.mem_cons_of_mem _ member))
      (formed_bind formed suits pass.file pass.options)

end Binding

/-- A table stays consistent through any number of passes over any trees, in whatever way the
passes end. -/
theorem consistent_afterPasses (passes : List Pass)
    (coherent : Tree.Coherent (passes.map (·.tree))) (searchesBases : Bool) :
    ((Bound.fresh searchesBases).afterPasses passes).table.Consistent :=
  (Binding.formed_afterPasses coherent (fun _ member => List.mem_map_of_mem member)
    (Binding.formed_fresh _ rfl rfl searchesBases)).consistent

/-- A class, and then a class without a name, at which every pass stops. -/
def namelessBehindClass : Node :=
  (Tree.seq [.encodedList .classSpec (some (.simpleName "A")) none
      [.nil, .ofToken ⟨.identifier, "A", 0⟩], .list .classSpec [.nil]]).numbered

/-- The theorem for two passes that stop early. -/
theorem consistent_afterPasses_namelessBehindClass :
    Tree.Coherent [namelessBehindClass, namelessBehindClass] ∧
      ((Bound.fresh true).afterPasses
        [⟨"a.cc", {}, namelessBehindClass⟩, ⟨"a.cc", {}, namelessBehindClass⟩]).table.Consistent :=
  have coherent : Tree.Coherent [namelessBehindClass, namelessBehindClass] := by decide
  ⟨coherent, consistent_afterPasses [⟨"a.cc", {}, namelessBehindClass⟩,
    ⟨"a.cc", {}, namelessBehindClass⟩] coherent true⟩

end CppNames
