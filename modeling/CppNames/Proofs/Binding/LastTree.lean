import CppNames.Proofs.Binding.Forest
import CppNames.Proofs.Binding.Lies

namespace CppNames
namespace Binding

/-!
# What is left of a tree

Whatever a node spells, what is left of it lasts if this holds of the nodes inside it, and the
definitions in it lie right.  By induction on the size of a tree the checks stop nowhere, and what
is left of the whole tree is known at the end.
-/

open Table

variable {setting : Setting} {surroundings : Surroundings} {table : Table}
  {pending : Option ScopeId} {visit checked : Visit}

/-! ## Plain nodes -/

/-- What is left of a node that declares nothing is what is left of the nodes inside it. -/
theorem traced_plain {notes : Annotations} {node : Node} {scope : ScopeId} {construct : Construct}
    (spells : node.construct? = some construct) (plain : construct ≠ .namespaceSpec)
    (nothing : declaredNames node = [])
    (inner : ∀ child ∈ visits notes node scope, Traced table notes child.1 child.2) :
    Traced table notes node scope := by
  refine .intro (.of_names spells plain ?_) inner
  rw [nothing]
  exact fun _ member => absurd member List.not_mem_nil

theorem lasts_bindUsing {node : Node}
    (is : node.isA .usingDirective = true ∨ node.isA .usingDeclaration = true) {step : Bind Unit}
    (keeps : Keeps (setting.using ∅) surroundings table pending step fun _ _ left => pending = left) :
    Lasts setting (usesOf node.preorder) surroundings table pending step step (fun _ _ _ => True)
      fun _ state => Traced state.table state.annotations node surroundings.current := by
  refine ((Lasts.only keeps).widen (Set.empty_subset _)).weaken (fun _ _ _ _ => trivial) ?_
  intro _ state _
  rcases is with is | is <;> have spells := spells_of_isA is
  · exact traced_plain spells nofun (by simp [declaredNames, spells]) (by simp [visits, spells])
  · exact traced_plain spells nofun (by simp [declaredNames, spells]) (by simp [visits, spells])

theorem lasts_bindBlock (well : VisitsLast [] visit checked) (firstly : setting.first = true)
    (ready : Ready setting surroundings table pending) {node : Node}
    (once : Once setting table node.preorder)
    (is : node.isA .block = true ∨ node.isA .forStatement = true) :
    Lasts setting (usesOf node.preorder) surroundings table pending (bindBlock visit node)
      (bindBlock checked node) (fun _ _ _ => True)
      fun _ state => Traced state.table state.annotations node surroundings.current := by
  have inside : (Tree.parts node.present).Sublist (Tree.parts node.elements) :=
    Tree.parts_sublist List.filter_sublist
  have isCell : node.isCell = true := is.elim isCell_of_isA isCell_of_isA
  have there : node ∈ node.preorder := is.elim mem_preorder_of_isA mem_preorder_of_isA
  have splits : Splits (usesOf node.preorder) {.note node.id} (usesOf (Tree.parts node.present)) :=
    is.elim (fun isBlock => (once.own isBlock inside).narrow (Splits.declareNote node).inBack)
      fun isFor => (once.own isFor inside).narrow (Splits.declareNote node).inBack
  have content : setting.content node.id = .block ∨ setting.content node.id = .forStatement :=
    is.imp once.self once.self
  have bears : (setting.content node.id).Bears node.id .block := by
    rcases content with is | is
    · rw [is]
      exact .inr rfl
    · rw [is]
      rfl
  refine .behind firstly ready reads_current fun here same => ?_
  subst same
  refine .entering (fun _ _ => True) firstly splits rfl isCell (lasts_scopeFor ready
    ready.current.hasScope ?_ bears (once.unbound.noted node.id (splits.inFront rfl))
    (ready.formed.outside_of_isOpen ready.current) ?_) ?_
  · exact ⟨rfl, rfl, fun _ member => nomatch member⟩
  · rintro (impossible | impossible) <;> cases impossible
  rintro scope after left ready evolves _ ⟨⟨rfl, ⟨shape, has, bears⟩, _⟩, _⟩
  have isOpen : after.Open scope := by
    refine has.isOpen ?_
    have bears : (setting.content node.id).Bears node.id shape := bears
    rcases content with is | is
    · rw [is] at bears
      rcases bears with rfl | rfl <;> rfl
    · rw [is] at bears
      cases bears
      rfl
  have elements : Once setting.inward table (Tree.parts node.present) := by
    refine once.inward (Tree.parts_present_sublist node).subperm fun part member => ?_
    refine once.inner node there part ?_
    rw [Tree.innerParts_of_isA (is.imp_right .inl)]
    exact inside.subset member
  have inwardFirst : setting.inward.first = true := firstly
  refine (Lasts.inward ready (lasts_visitElements well inwardFirst (ready.inward isOpen)
    (elements.behind splits.apart evolves))).weaken (fun _ _ _ holds => holds) ?_
  intro _ state inner _ noted
  have within := forall_within noted inner
  rcases is with is | is <;> have spells := spells_of_isA is
  · refine traced_plain spells nofun (by simp [declaredNames, spells]) ?_
    simpa [visits, spells] using within
  · refine traced_plain spells nofun (by simp [declaredNames, spells]) ?_
    simpa [visits, spells] using within

theorem lasts_bindFor (well : VisitsLast [] visit checked) (firstly : setting.first = true)
    (ready : Ready setting surroundings table pending) {node : Node}
    (once : Once setting table node.preorder) (is : node.isA .forStatement = true) :
    Lasts setting (usesOf node.preorder) surroundings table pending (bindFor visit node)
      (bindFor checked node) (fun _ _ _ => True)
      fun _ state => Traced state.table state.annotations node surroundings.current := by
  unfold bindFor
  split
  · exact .never ready (reads_malformed _ _ _)
  · exact lasts_bindBlock well firstly ready once (.inr is)

theorem lasts_bindMemberAccess (well : VisitsLast [] visit checked) (firstly : setting.first = true)
    (ready : Ready setting surroundings table pending) {node : Node}
    (once : Once setting table node.preorder)
    (is : node.isA .dotMemberExpr = true ∨ node.isA .arrowMemberExpr = true) :
    Lasts setting (usesOf node.preorder) surroundings table pending (bindMemberAccess visit node)
      (bindMemberAccess checked node) (fun _ _ _ => True)
      fun _ state => Traced state.table state.annotations node surroundings.current := by
  have traced : ∀ {state : State}, (∀ item ∈ [node.first].filter (!·.isNil),
      Traced state.table state.annotations item surroundings.current) →
      Traced state.table state.annotations node surroundings.current := by
    intro state inner
    have here := forall_here inner
    rcases is with is | is <;> have spells := spells_of_isA is
    · refine traced_plain spells nofun (by simp [declaredNames, spells]) ?_
      simpa [visits, spells] using here
    · refine traced_plain spells nofun (by simp [declaredNames, spells]) ?_
      simpa [visits, spells] using here
  have object : Lasts setting (usesOf node.preorder) surroundings table pending
      (do if !node.first.isNil then visit node.first)
      (do if !node.first.isNil then checked node.first)
      (fun _ _ _ => True)
      fun _ state => Traced state.table state.annotations node surroundings.current := by
    have fits := usesOf_mono ((Tree.preorder_nth_sublist node 0).trans
      (Tree.parts_elements_sublist node)).subset
    split
    · exact ((well.plain firstly ready (once.nth 0)).widen fits).weaken (fun _ _ _ holds => holds)
        fun _ state own => traced fun item member => by
          rw [List.mem_singleton.mp (List.mem_filter.mp member).1]
          exact own
    · next absent =>
      refine .pure ready trivial fun _ _ => traced fun item member => ?_
      rcases List.mem_filter.mp member with ⟨among, there⟩
      rw [List.mem_singleton.mp among] at there
      exact absurd there absent
  unfold bindMemberAccess
  refine .behind firstly ready looks_read fun here _ => ?_
  dsimp only
  split
  · exact .behind firstly ready (looks_answer _) fun _ _ =>
      .behind firstly ready (looks_report _ _ _) fun _ _ => object
  · exact object

/-! ## Nodes -/

theorem lasts_bindNode {headers : List Node} {node : Node}
    (well : VisitsLast (if node.isA .templateDecl then node :: headers else []) visit checked)
    (firstly : setting.first = true) (ready : Ready setting surroundings table pending)
    (once : Once setting table node.preorder) (under : Under headers table pending)
    (apart : ∀ header ∈ headers, header.id ∉ node.preorder.map Tree.id) :
    Lasts setting (usesOf node.preorder) surroundings table pending (bindNode visit node)
      (bindNode checked node) (fun _ _ _ => True)
      fun _ state => Traced state.table state.annotations node surroundings.current := by
  unfold bindNode
  split
  · next none =>
    refine .pure ready trivial fun _ _ => .intro ⟨?_, fun is => ?_⟩ ?_
    · simp [declaredNames, none]
    · rw [spells_of_isA is] at none
      cases none
    · simp [visits, none]
  · next construct spells =>
    have isA : node.isA construct = true := beq_of_eq spells
    by_cases isTemplate : node.isA .templateDecl = true
    · obtain rfl : construct = .templateDecl :=
        Option.some.inj (spells.symm.trans (spells_of_isA isTemplate))
      rw [if_pos isTemplate] at well
      exact lasts_bindTemplate well firstly ready once isTemplate under apart
    rw [if_neg isTemplate] at well
    cases construct with
    | namespaceSpec => exact lasts_bindNamespace well firstly ready once isA
    | classSpec =>
      exact (lasts_bindClass well firstly ready once isA .none .none rfl .nil).weaken
        (fun _ _ _ holds => holds) fun _ _ holds => holds.1
    | enumSpec => exact lasts_bindEnum firstly ready once isA
    | declaration => exact lasts_bindDeclaration well firstly ready once isA under
    | typedefDecl => exact lasts_bindTypedef well firstly ready once isA
    | templateDecl => exact absurd isA isTemplate
    | usingDirective => exact lasts_bindUsing (.inl isA) (keeps_bindUsingDirective (ready.using ∅) node)
    | usingDeclaration =>
      exact lasts_bindUsing (.inr isA) (keeps_bindUsingDeclaration (ready.using ∅) node
        (once.aliasing node (mem_preorder_of_isA isA) isA))
    | block => exact lasts_bindBlock well firstly ready once (.inl isA)
    | forStatement => exact lasts_bindFor well firstly ready once isA
    | dotMemberExpr => exact lasts_bindMemberAccess well firstly ready once (.inl isA)
    | arrowMemberExpr => exact lasts_bindMemberAccess well firstly ready once (.inr isA)
    | _ =>
      refine ((lasts_visitElements well firstly ready once.present).widen
        (usesOf_mono (Tree.parts_present_sublist node).subset)).weaken (fun _ _ _ holds => holds) ?_
      intro _ state inner
      refine traced_plain spells nofun (by simp [declaredNames, spells]) ?_
      simpa [visits, spells] using forall_here inner

/-- A node without functions and classes lies right. -/
theorem Under.liesRight {headers : List Node} {node : Node} {before done : State}
    (under : Under headers before.table before.header) (noFunction : ¬ node.isA .declaration = true)
    (noClass : specifiers node = []) : LiesRight headers visit node surroundings before done := by
  refine ⟨under.headersStand, fun defined => absurd ?_ noFunction, fun index inside => ?_⟩
  · simp only [Tree.definesFunction, Bool.and_eq_true] at defined
    exact defined.1.1
  · rw [noClass] at inside
    exact absurd inside (Nat.not_lt_zero index)

theorem liesRight_of_bindClass (well : VisitsLast [] visit checked) (firstly : setting.first = true)
    {headers : List Node} {node : Node} {before done : State}
    (ready : Ready setting surroundings before.table before.header)
    (once : Once setting before.table node.preorder) (is : node.isA .classSpec = true)
    (under : Under headers before.table before.header)
    (runs : bindClass visit node .elaborated none surroundings before = .ok () done) :
    LiesRight headers visit node surroundings before done := by
  have noDeclaration : ¬ node.isA .declaration = true := not_isA_of_spells (spells_of_isA is) nofun
  have only : specifiers node = [node] := if_pos is
  refine ⟨under.headersStand, fun defined => absurd ?_ noDeclaration, ?_⟩
  · simp only [Tree.definesFunction, Bool.and_eq_true] at defined
    exact defined.1.1
  · intro index inside specifier found middle ends
    rw [only] at inside found ends
    obtain rfl : index = 0 := Nat.lt_one_iff.mp inside
    cases found
    unfold bindFirst at ends
    rw [if_neg noDeclaration] at ends
    cases ends
    refine ((lasts_bindClass well firstly ready once is .none .none rfl .nil).lasts rfl rfl runs
      (.refl _ done)).2.shorten fun target => ?_
    simp [noDeclaration, routeTo]

theorem liesRight_of_bindNode {headers : List Node} {node : Node} {before done : State}
    (well : VisitsLast [] visit checked) (firstly : setting.first = true)
    (ready : Ready setting surroundings before.table before.header)
    (once : Once setting before.table node.preorder)
    (under : Under headers before.table before.header)
    (runs : bindNode visit node surroundings before = .ok () done) :
    LiesRight headers visit node surroundings before done := by
  by_cases isDeclaration : node.isA .declaration = true
  · unfold bindNode at runs
    rw [spells_of_isA isDeclaration] at runs
    exact liesRight_of_bindDeclaration well firstly ready once isDeclaration under runs
  by_cases isTypedef : node.isA .typedefDecl = true
  · unfold bindNode at runs
    rw [spells_of_isA isTypedef] at runs
    exact liesRight_of_bindTypedef well firstly ready once isTypedef under runs
  by_cases isClass : node.isA .classSpec = true
  · unfold bindNode at runs
    rw [spells_of_isA isClass] at runs
    exact liesRight_of_bindClass well firstly ready once isClass under runs
  · exact under.liesRight isDeclaration (by simp [specifiers, isClass, isDeclaration, isTypedef])

/-! ## Trees -/

theorem visitsLast_bindWithin (size : Nat) (headers : List Node) :
    VisitsLast headers (bindWithin size) (bindChecked size headers) := by
  induction size generalizing headers with
  | zero =>
    intro setting surroundings table pending node firstly ready once under apart
    refine ⟨?_, fun _ _ => rfl, fun _ _ runs => nomatch runs⟩
    rintro state rfl rfl
    exact ⟨state.header, (ready.using _).formed⟩
  | succ size ih =>
    intro setting surroundings table pending node firstly ready once under apart
    have lasts := lasts_bindNode (ih (if node.isA .templateDecl then node :: headers else []))
      firstly ready once under apart
    refine ⟨lasts.keeps, ?_, lasts.lasts⟩
    rintro early rfl rfl
    change (bindNode (bindChecked size (if node.isA .templateDecl then node :: headers else [])) node >>=
      fun _ => do
        let after ← get
        if LiesRight headers (bindWithin size) node surroundings early after then pure ()
        else throw (.fault .endless)) surroundings early = bindNode (bindWithin size) node surroundings early
    have same : bindNode (bindChecked size _) node surroundings early = _ := lasts.same rfl rfl
    cases runs : bindNode (bindWithin size) node surroundings early with
    | error error after => rw [Binds.bind_of_error (same.trans runs)]
    | ok value after =>
      rw [Binds.bind_of_ok (same.trans runs), get_bind_apply,
        if_pos (liesRight_of_bindNode (ih []) firstly ready once under runs)]
      rfl

theorem lasts_bindTree (firstly : setting.first = true)
    (ready : Ready setting surroundings table pending) {tree : Node}
    (once : Once setting table (Tree.parts tree.present)) :
    Lasts setting (usesOf (Tree.parts tree.present)) surroundings table pending (bindTree tree)
      (bindTreeChecked tree) (fun _ _ _ => True)
      fun _ state => ∀ item ∈ tree.present,
        Traced state.table state.annotations item surroundings.current :=
  lasts_visitElements (visitsLast_bindWithin tree.size []) firstly ready once

/-! ## The first pass -/

/-- Before the first pass, no node of a tree is bound. -/
theorem once_ofFirstPass {tree : Node} (distinct : (tree.preorder.map Tree.id).Nodup)
    (searchesBases : Bool) :
    Once (Setting.ofFirstPass tree) (Bound.fresh searchesBases).table tree.preorder where
  spells := (suits_ofFirstPass distinct (Tree.coherent_of_nodup distinct) searchesBases).spells
  aliasing _ _ _ := trivial
  inside stands := False.elim stands
  inner := (suits_ofFirstPass distinct (Tree.coherent_of_nodup distinct) searchesBases).inner
  distinct := distinct
  unbound := by
    refine ⟨fun _ _ => rfl, fun label _ id => ?_⟩
    have absent : ¬ (Bound.fresh searchesBases).table.HasSymbol id := Nat.not_lt_zero id.index
    rw [declarers_of_not_hasSymbol absent]
    exact List.not_mem_nil

/-- What is left of a tree that is bound into a fresh table. -/
theorem lasts_firstPass {tree : Node} (distinct : (tree.preorder.map Tree.id).Nodup)
    (searchesBases : Bool) (name : String) (options : BindOptions) :
    Lasts (Setting.ofFirstPass tree) (usesOf (Tree.parts tree.present)) ⟨name, options, global⟩
      (Bound.fresh searchesBases).table none (bindTree tree) (bindTreeChecked tree)
      (fun _ _ _ => True) fun _ state => ∀ item ∈ tree.present,
        Traced state.table state.annotations item global :=
  lasts_bindTree rfl
    ((formed_fresh (Setting.ofFirstPass tree) rfl rfl searchesBases).ready name options)
    (once_ofFirstPass distinct searchesBases).present

end Binding

/-!
## Definitions outside their classes see their classes

The scope of a function that is defined outside its class lies in the innermost template header, and
that header lies in the class.  The headers around it are passed over.  The scope of a class that is
defined outside the class it belongs to lies in all of its headers, one in another, and these stay
where the definition stands.  Without a header it lies in the class that it belongs to.
-/

open Binding Table

/-- When a parse tree is bound for the first time, the checks behind its nodes find nothing wrong:
whatever function or class is defined with a qualified name, its scope lies where `LiesRight` says,
given what the qualifier denotes at this moment. -/
theorem liesRight_firstPass (file source : String) (parsing : ParseOptions) (searchesBases : Bool)
    (name : String) (options : BindOptions) :
    match parse file source parsing with
    | .error _ => True
    | .ok parsed =>
      bindTreeChecked parsed.tree ⟨name, options, global⟩
          ⟨(Bound.fresh searchesBases).table, (Bound.fresh searchesBases).annotations, none, []⟩ =
        bindTree parsed.tree ⟨name, options, global⟩
          ⟨(Bound.fresh searchesBases).table, (Bound.fresh searchesBases).annotations, none, []⟩ := by
  split
  · trivial
  next parsed parses =>
  exact (lasts_firstPass (nodup_ids_of_parse parses) searchesBases name options).same rfl rfl

end CppNames
