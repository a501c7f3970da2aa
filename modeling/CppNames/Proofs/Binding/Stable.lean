import CppNames.Binding.Bind
import CppNames.Proofs.Binding.KeepDeclaration

namespace CppNames
namespace Binding

/-!
# What binding does to a table

Binding changes a table by a few operations only: it adds scopes, declares symbols in the scopes
that they name as their own, makes symbols visible, links scopes, and gives symbols their scopes.
A property of tables that survives these operations is `Stable`, and it survives a pass over any
tree, wherever the pass ends.  Nothing else has to be known of the table or of the tree.

Names become visible by using-declarations only, under the last component of the name that is
used, and functions are declared by declarators only, with the signatures of their parameter
lists.  So `Stable` takes the nodes that may stand in a tree as a parameter, and a pass must meet
no others.
-/

open Table

/-! ## Names that are used -/

/-- The name under which a node, if it is a using-declaration, makes symbols visible. -/
def usedName? (node : Node) : Option Encoding :=
  if node.isA .usingDeclaration then
    node.name?.bind fun name =>
      (name.lastComponent.toOption).bind fun last => last.lookupKey.toOption
  else none

/-- A node that, if it is a using-declaration, makes symbols visible under an allowed name. -/
def MayUse (allowed : Encoding → Prop) (node : Node) : Prop :=
  ∀ key, usedName? node = some key → allowed key

/-- A permitted declarator declares functions of a type with a signature. -/
def Announces (permits : Node → Prop) (label : Tree.NodeId) (type : Encoding)
    (signature : Signature) : Prop :=
  ∃ declarator : Node, permits declarator ∧ declarator.id = label ∧
    declarator.type?.getD .empty = type ∧ signatureOf declarator.parameterList = signature

/-- Some nodes are permitted. -/
def Permitted (permits : Node → Prop) (nodes : List Node) : Prop := ∀ node ∈ nodes, permits node

namespace Permitted

variable {permits : Node → Prop} {node : Node}

theorem sublist {few many : List Node} (fits : Permitted permits many) (sublist : few.Sublist many) :
    Permitted permits few :=
  fun node member => fits node (sublist.subset member)

theorem elements (fits : Permitted permits node.preorder) :
    ∀ element ∈ node.elements, Permitted permits element.preorder := fun _ member =>
  fits.sublist ((Tree.preorder_sublist_of_mem member).trans (Tree.parts_elements_sublist node))

theorem present (fits : Permitted permits node.preorder) :
    ∀ element ∈ node.present, Permitted permits element.preorder := fun element member =>
  fits.elements element (Tree.mem_present member).1

theorem nth (fits : Permitted permits node.preorder) (position : Nat) :
    Permitted permits (node.nth position).preorder :=
  fits.sublist ((Tree.preorder_nth_sublist node position).trans (Tree.parts_elements_sublist node))

theorem last (fits : Permitted permits node.preorder) : Permitted permits node.last.preorder := by
  unfold Tree.last
  rw [List.getLastD_eq_getLast?]
  cases ends : node.elements.getLast? with
  | none => exact fun _ member => absurd member List.not_mem_nil
  | some final => exact fits.elements final (List.mem_of_getLast? ends)

theorem parameterList (fits : Permitted permits node.preorder) :
    Permitted permits node.parameterList.preorder :=
  fits.sublist ((Tree.preorder_elementBehind_sublist node _).trans
    (Tree.parts_elements_sublist node))

theorem typeWords (fits : Permitted permits node.preorder) :
    ∀ word ∈ node.typeWords, Permitted permits word.preorder := fun _ member =>
  fits.sublist ((Tree.preorder_sublist_of_mem member).trans (Tree.parts_typeWords_sublist node).1)

end Permitted

/-! ## Stable properties -/

/-- No symbol of a name keeps another one from becoming visible beside it. -/
def Unobstructed (table : Table) (scope : ScopeId) (name : Encoding) (id : SymbolId) : Prop :=
  ∃ found, table.scope scope = .ok found ∧ obstacle? table id (found.named name) = .ok none

/-- A property of tables that the operations of binding keep.  What a type definition names, and
what becomes visible, was found in the table.  A name becomes visible, and a function is declared,
where a node that is permitted says so. -/
structure Stable (permits : Node → Prop) (holds : Table → Prop) : Prop where
  createScope : ∀ {table} (region outer node), holds table →
    holds (table.createScope region (some outer) (some node)).1
  declare : ∀ {table name kind type scope node span after answer}, holds table →
    (∀ target, kind = .typedefName (some target) → table.HasSymbol target) →
    (∀ signature, kind.signature? = some signature → Announces permits node type signature) →
    table.declare scope (.ofDeclaration name kind type scope node span) = .ok (after, answer) →
    holds after
  makeVisible : ∀ {table scope name id after fresh}, holds table → table.HasSymbol id →
    (∃ node, permits node ∧ usedName? node = some name) → Unobstructed table scope name id →
    table.makeVisible scope name id = .ok (after, fresh) → holds after
  addNominated : ∀ {table scope target after able}, holds table →
    table.addNominated scope target = .ok (after, able) → holds after
  addBase : ∀ {table scope base after fresh}, holds table →
    table.addBase scope base = .ok (after, fresh) → holds after
  addFragment : ∀ {table} (scope node), holds table → holds (table.addFragment scope node)
  setNodeScope : ∀ {table} (node scope), holds table → holds (table.setNodeScope node scope)
  setDefines : ∀ {table} (id scope), holds table →
    holds (table.modifySymbol id ({ · with defines := some scope }))
  reparent : ∀ {table scope outer after}, holds table →
    table.reparent scope outer = .ok after → holds after

/-- A property is stable if it holds as long as no name comes in, and where one comes in by a
declaration or a using-declaration. -/
theorem Stable.ofNames {permits : Node → Prop} {holds : Table → Prop}
    {kept : Symbol → Symbol → Prop} (refl : ∀ symbol, kept symbol symbol)
    (defines : ∀ symbol scope, kept symbol { symbol with defines := some scope })
    (frame : ∀ {table after}, KeepsNames kept table after → holds table → holds after)
    (declare : ∀ {table name kind type scope node span after answer}, holds table →
      table.declare scope (.ofDeclaration name kind type scope node span) = .ok (after, answer) →
      holds after)
    (makeVisible : ∀ {table scope name id after fresh}, holds table →
      (∃ node, permits node ∧ usedName? node = some name) → Unobstructed table scope name id →
      table.makeVisible scope name id = .ok (after, fresh) → holds after) :
    Stable permits holds where
  createScope region outer node before :=
    frame (.createScope refl region (some outer) (some node)) before
  declare before _ _ done := declare before done
  makeVisible before _ allows free done := makeVisible before allows free done
  addNominated before done := frame (.addNominated refl done) before
  addBase before done := frame (.addBase refl done) before
  addFragment scope _ before := frame (.modifyScope refl scope fun _ => rfl) before
  setNodeScope node scope before := frame (.setNodeScope refl node scope) before
  setDefines id scope before := frame (.modifySymbol id refl (defines · scope)) before
  reparent before done := frame (.reparent refl done) before

/-- A property of the symbols is stable if it goes on holding where a symbol gets a scope, and behind
a declaration. -/
theorem Stable.ofSymbols {permits : Node → Prop} {holds : Table → Prop}
    (frame : ∀ {table after : Table}, after.symbols = table.symbols → holds table → holds after)
    (setDefines : ∀ {table} (id scope), holds table →
      holds (table.modifySymbol id ({ · with defines := some scope })))
    (declare : ∀ {table name kind type scope node span after answer}, holds table →
      (∀ target, kind = .typedefName (some target) → table.HasSymbol target) →
      (∀ signature, kind.signature? = some signature → Announces permits node type signature) →
      table.declare scope (.ofDeclaration name kind type scope node span) = .ok (after, answer) →
      holds after) : Stable permits holds where
  createScope _ _ _ before := frame (symbols_createScope ..) before
  declare := declare
  makeVisible before _ _ _ done := frame (symbols_makeVisible done) before
  addNominated before done := frame (symbols_addNominated done) before
  addBase before done := frame (symbols_addBase done) before
  addFragment {table} scope node before :=
    frame (show (table.addFragment scope node).symbols = table.symbols from rfl) before
  setNodeScope {table} node scope before :=
    frame (show (table.setNodeScope node scope).symbols = table.symbols from rfl) before
  setDefines := setDefines
  reparent before done := frame (symbols_reparent done) before

/-- A property is stable if it goes on holding where a table grows and its symbols stay, where a
symbol gets a scope, and behind a declaration. -/
theorem Stable.ofGrows {permits : Node → Prop} {holds : Table → Prop}
    (frame : ∀ {table after : Table}, table.Grows after → after.symbols = table.symbols →
      holds table → holds after)
    (setDefines : ∀ {table} (id scope), holds table →
      holds (table.modifySymbol id ({ · with defines := some scope })))
    (declare : ∀ {table name kind type scope node span after answer}, holds table →
      table.declare scope (.ofDeclaration name kind type scope node span) = .ok (after, answer) →
      holds after) : Stable permits holds where
  createScope region outer node before :=
    frame (grows_createScope region outer node) (symbols_createScope ..) before
  declare before _ _ done := declare before done
  makeVisible before _ _ _ done := frame (grows_makeVisible done) (symbols_makeVisible done) before
  addNominated before done := frame (grows_addNominated done) (symbols_addNominated done) before
  addBase before done := frame (grows_addBase done) (symbols_addBase done) before
  addFragment {table} scope node before := frame (grows_addFragment scope node)
    (show (table.addFragment scope node).symbols = table.symbols from rfl) before
  setNodeScope {table} node scope before := frame (grows_setNodeScope node scope)
    (show (table.setNodeScope node scope).symbols = table.symbols from rfl) before
  setDefines := setDefines
  reparent before done := frame (grows_reparent done) (symbols_reparent done) before

/-- The table where a step ends has a property. -/
def EndsWith {α : Type} (holds : Table → Prop) : EStateM.Result PassError State α → Prop
  | .ok _ after => holds after.table
  | .error _ after => holds after.table

/-- A step that keeps a property of tables, wherever it ends. -/
def Maintains {α : Type} (holds : Table → Prop) (step : Bind α) : Prop :=
  ∀ surroundings state, holds state.table → EndsWith holds (step surroundings state)

variable {α β : Type} {holds : Table → Prop} {step : Bind α}

namespace EndsWith

variable {surroundings : Surroundings} {state : State}

/-- What comes behind a question to the table may use the answer. -/
theorem ask {question : Table → Outcome α} {next : α → Bind β} (before : holds state.table)
    (rest : ∀ value, question state.table = .ok value →
      EndsWith holds (next value surroundings state)) :
    EndsWith holds ((Binding.ask question >>= next) surroundings state) := by
  have runs : (Binding.ask question >>= next) surroundings state =
      (answer (question state.table) >>= next) surroundings state := rfl
  rw [runs]
  cases done : question state.table with
  | error fault => exact before
  | ok value => exact rest value done

/-- What comes behind a step that only looks works on the same table, given what was found. -/
theorem given {post : Surroundings → Table → α → Prop} {next : α → Bind β}
    (before : holds state.table) (first : Reads step post)
    (rest : ∀ value middle, middle.table = state.table → post surroundings state.table value →
      EndsWith holds (next value surroundings middle)) :
    EndsWith holds ((step >>= next) surroundings state) := by
  have leaves := first surroundings state
  cases result : step surroundings state with
  | error error after =>
    rw [Binds.bind_of_error result]
    rw [result] at leaves
    have same : after.table = state.table := leaves.1
    change holds after.table
    rw [same]
    exact before
  | ok value middle =>
    rw [Binds.bind_of_ok result]
    rw [result] at leaves
    exact rest value middle leaves.1.table leaves.2

theorem bind {next : α → Bind β} (front : EndsWith holds (step surroundings state))
    (rest : ∀ value, Maintains holds (next value)) :
    EndsWith holds ((step >>= next) surroundings state) := by
  cases result : step surroundings state with
  | error error after =>
    rw [Binds.bind_of_error result]
    rw [result] at front
    exact front
  | ok value middle =>
    rw [Binds.bind_of_ok result]
    rw [result] at front
    exact rest value surroundings middle front

theorem imp {weaker : Table → Prop} (ends : EndsWith holds (step surroundings state))
    (weaken : ∀ table, holds table → weaker table) :
    EndsWith weaker (step surroundings state) := by
  cases result : step surroundings state with
  | error error after => rw [result] at ends; exact weaken _ ends
  | ok value after => rw [result] at ends; exact weaken _ ends

theorem perform {operation : Table → Outcome (Table × α)} (before : holds state.table)
    (keeps : ∀ after value, operation state.table = .ok (after, value) → holds after) :
    EndsWith holds (Binding.perform operation surroundings state) :=
  ask before fun answered done => keeps answered.1 answered.2 done

theorem discard (ends : EndsWith holds (step surroundings state)) :
    EndsWith holds ((Functor.discard step : Bind PUnit) surroundings state) := by
  change EndsWith holds (EStateM.map (fun _ => PUnit.unit) (step surroundings) state)
  unfold EStateM.map
  cases result : step surroundings state with
  | error error after => rw [result] at ends; exact ends
  | ok value after => rw [result] at ends; exact ends

end EndsWith

namespace Maintains

/-- A property that a step keeps holds where it came to its end. -/
theorem of_ok {surroundings : Surroundings} {state after : State} {value : α}
    (maintains : Maintains holds step) (before : holds state.table)
    (ran : step surroundings state = .ok value after) : holds after.table := by
  have ends := maintains surroundings state before
  rw [ran] at ends
  exact ends

theorem looks (looks : Looks step) : Maintains holds step := by
  intro surroundings state before
  have leaves := looks surroundings state
  cases result : step surroundings state with
  | error error after =>
    rw [result] at leaves
    have same : after.table = state.table := leaves.1
    change holds after.table
    rw [same]
    exact before
  | ok value after =>
    rw [result] at leaves
    have same : after.table = state.table := leaves.1.table
    change holds after.table
    rw [same]
    exact before

theorem bind {next : α → Bind β} (first : Maintains holds step)
    (rest : ∀ value, Maintains holds (next value)) : Maintains holds (step >>= next) :=
  fun surroundings state before => (first surroundings state before).bind rest

/-- What comes behind a step that only looks, given what it found. -/
theorem given {post : Surroundings → Table → α → Prop} {next : α → Bind β}
    (first : Reads step post) (rest : ∀ surroundings table value, post surroundings table value →
      Maintains holds (next value)) : Maintains holds (step >>= next) :=
  fun surroundings state before => .given before first fun value middle same found =>
    rest surroundings state.table value found surroundings middle (same ▸ before)

/-- What comes behind a step that only looks. -/
theorem after {post : Surroundings → Table → α → Prop} {next : α → Bind β}
    (first : Reads step post) (rest : ∀ value, Maintains holds (next value)) :
    Maintains holds (step >>= next) :=
  .given first fun _ _ value _ => rest value

theorem pure (value : α) : Maintains holds (Pure.pure value : Bind α) := .looks (looks_pure value)

theorem discard (maintains : Maintains holds step) : Maintains holds (Functor.discard step) :=
  fun surroundings state before => (maintains surroundings state before).discard

theorem inScope {scope : ScopeId} (maintains : Maintains holds step) :
    Maintains holds (Binding.inScope scope step) :=
  fun surroundings => maintains { surroundings with current := scope }

theorem forM {items : List α} {visit : α → Bind PUnit}
    (all : ∀ item ∈ items, Maintains holds (visit item)) : Maintains holds (items.forM visit) := by
  induction items with
  | nil => exact .pure _
  | cons first rest ih =>
    refine .bind (all first (List.mem_cons_self ..)) fun _ => ?_
    exact ih fun item member => all item (List.mem_cons_of_mem _ member)

theorem foldlM {items : List α} {turn : β → α → Bind β}
    (all : ∀ value item, Maintains holds (turn value item)) (start : β) :
    Maintains holds (items.foldlM turn start) := by
  induction items generalizing start with
  | nil => exact .pure _
  | cons first rest ih =>
    rw [List.foldlM_cons]
    exact .bind (all start first) fun value => ih value

/-- A step that leaves the table alone, whatever else it changes. -/
theorem modify {change : State → State} (same : ∀ state, (change state).table = state.table) :
    Maintains holds (modify change : Bind PUnit) := by
  intro surroundings state before
  change holds (change state).table
  rw [same]
  exact before

theorem annotate (node : Node) (scope : ScopeId) : Maintains holds (Binding.annotate node scope) := by
  unfold Binding.annotate
  split
  · exact .modify fun _ => rfl
  · exact .pure _

theorem change {edit : Table → Table} (keeps : ∀ table, holds table → holds (edit table)) :
    Maintains holds (change edit) :=
  fun _ state before => keeps state.table before

/-- The table becomes what a computation on it answers. -/
theorem replace {question : Table → Outcome Table}
    (keeps : ∀ table after, holds table → question table = .ok after → holds after) :
    Maintains holds (ask question >>= fun after => Binding.change fun _ => after) :=
  fun _ state before => .ask before fun after done => keeps state.table after before done

theorem perform {operation : Table → Outcome (Table × α)}
    (keeps : ∀ table after value, holds table → operation table = .ok (after, value) →
      holds after) : Maintains holds (perform operation) :=
  fun _ state before => .perform before fun after value done =>
    keeps state.table after value before done

end Maintains

/-! ## Scopes and symbols -/

variable {permits : Node → Prop}

section Steps

variable (stable : Stable permits holds)

include stable

theorem maintains_createScope (region : Region) (outer : ScopeId) (node : Tree.NodeId) :
    Maintains holds (createScope region outer node) := by
  intro surroundings state before
  have entered := stable.createScope region outer node before
  have runs : createScope region outer node surroundings state =
      (answer (state.table.createScope region (some outer) (some node)).2 : Bind ScopeId)
        surroundings
        { state with table := (state.table.createScope region (some outer) (some node)).1 } := rfl
  rw [runs]
  exact Maintains.looks (looks_answer _) surroundings _ entered

theorem maintains_scopeFor (node : Tree.NodeId) (outer : ScopeId) (region : Region) :
    Maintains holds (scopeFor node outer region) := by
  refine .after reads_get fun state => ?_
  split
  · exact .pure _
  · exact maintains_createScope stable _ _ _

theorem maintains_setDefines (symbol : SymbolId) (scope : ScopeId) :
    Maintains holds (setDefines symbol scope) :=
  .change fun _ before => stable.setDefines symbol scope before

theorem maintains_defineScope (symbol : Option SymbolId) (scope : ScopeId) :
    Maintains holds (defineScope symbol scope) := by
  cases symbol with
  | none => exact .pure _
  | some id => exact maintains_setDefines stable id scope

theorem maintains_performDeclare (name : Encoding) {kind : SymbolKind} (type : Encoding)
    (scope : ScopeId) (node : Tree.NodeId) (span : Option Span)
    (plain : ∀ target, kind ≠ .typedefName target)
    (announced : ∀ signature, kind.signature? = some signature →
      Announces permits node type signature) :
    Maintains holds
      (perform (·.declare scope (.ofDeclaration name kind type scope node span))) :=
  .perform fun _ _ _ before done =>
    stable.declare before (fun _ is => absurd is (plain _)) announced done

/-- A type definition may be declared where what it names is in the table. -/
theorem endsWith_declare {name type : Encoding} {kind : SymbolKind} {scope : ScopeId}
    {node : Tree.NodeId} {span : Option Span} {surroundings : Surroundings} {state : State}
    (before : holds state.table)
    (there : ∀ target, kind = .typedefName (some target) → state.table.HasSymbol target)
    (announced : ∀ signature, kind.signature? = some signature →
      Announces permits node type signature) :
    EndsWith holds
      (declare scope (.ofDeclaration name kind type scope node span) surroundings state) := by
  refine .given before (looks_answer _) fun text middle same _ => ?_
  rw [← same] at before there
  refine (EndsWith.perform before fun _ _ done => stable.declare before there announced done).bind ?_
  intro declared
  split
  · exact .pure _
  · exact .after (looks_reportRefusal _ _ _) fun _ => .pure _

theorem maintains_declare (name : Encoding) {kind : SymbolKind} (type : Encoding)
    (scope : ScopeId) (node : Tree.NodeId) (span : Option Span)
    (plain : ∀ target, kind ≠ .typedefName target)
    (announced : ∀ signature, kind.signature? = some signature →
      Announces permits node type signature) :
    Maintains holds (declare scope (.ofDeclaration name kind type scope node span)) :=
  fun _ _ before => endsWith_declare stable before (fun _ is => absurd is (plain _)) announced

theorem maintains_declareQuietly (name : Encoding) {kind : SymbolKind} (type : Encoding)
    (scope : ScopeId) (node : Tree.NodeId) (span : Option Span)
    (plain : ∀ target, kind ≠ .typedefName target)
    (announced : ∀ signature, kind.signature? = some signature →
      Announces permits node type signature) :
    Maintains holds (declareQuietly scope (.ofDeclaration name kind type scope node span)) :=
  .discard (maintains_declare stable _ _ _ _ _ plain announced)

theorem maintains_declareMember (name : Encoding) (scope : ScopeId) (last : Encoding)
    {kind : SymbolKind} (type : Encoding) (node : Tree.NodeId) (span : Option Span)
    (plain : ∀ target, kind ≠ .typedefName target)
    (announced : ∀ signature, kind.signature? = some signature →
      Announces permits node type signature) :
    Maintains holds (declareMember name scope last kind type node span) := by
  refine .after (looks_answer _) fun key => .after (looks_ask _) fun found =>
    .after (looks_answer _) fun text => ?_
  split
  · exact .after (looks_report _ _ _) fun _ => .pure _
  · refine .given (reads_ask _) fun _ _ declared asked => .after reads_get fun before => ?_
    refine .bind (maintains_declare stable _ _ _ _ _ (fun target is => ?_) fun signature has => ?_)
      fun id => .after reads_get fun after => ?_
    · exact plain _ ((body_memberKind asked).2 _ is)
    · exact announced signature ((signature?_memberKind asked).symm.trans has)
    dsimp only
    split
    · exact .after (looks_report _ _ _) fun _ => .pure _
    · exact .pure _

theorem maintains_declareNamed (name : Encoding) {kind : SymbolKind} (type : Encoding)
    (node : Tree.NodeId) (span : Option Span) (plain : ∀ target, kind ≠ .typedefName target)
    (announced : ∀ signature, kind.signature? = some signature →
      Announces permits node type signature) :
    Maintains holds (declareNamed name kind type node span) := by
  refine .after reads_current fun scope => ?_
  split
  · refine .after (reads_declarationTarget _ _) fun target => ?_
    split
    · exact .pure _
    · exact .bind (maintains_declareMember stable _ _ _ _ _ _ plain announced) fun _ => .pure _
  · exact .bind (maintains_declare stable _ _ _ _ _ plain announced) fun _ => .pure _

/-! ## Namespaces -/

theorem maintains_fragmentScope (node : Tree.NodeId) (name : Encoding) (outer : ScopeId)
    (id : SymbolId) : Maintains holds (fragmentScope node name outer id) := by
  refine .after (looks_ask _) fun symbol => ?_
  split
  · next scope _ =>
    refine .bind (.change fun _ before => ?_) fun _ => .pure _
    exact stable.setNodeScope node scope (stable.addFragment scope node before)
  · exact .bind (maintains_createScope stable _ _ _) fun _ =>
      .bind (maintains_setDefines stable _ _) fun _ => .pure _

theorem maintains_namespaceScope (node : Node) (name : Encoding) :
    Maintains holds (namespaceScope node name) := by
  refine .after reads_current fun outer => .after (looks_answer _) fun span =>
    .bind (maintains_performDeclare stable _ _ _ _ _ nofun nofun) fun declared => ?_
  split
  · exact maintains_fragmentScope stable _ _ _ _
  · refine .after (looks_answer _) fun _ => .after (looks_reportRefusal _ _ _) fun _ =>
      .after (looks_ask _) fun symbol => ?_
    split
    · exact .pure _
    · exact maintains_scopeFor stable _ _ _

/-! ## Classes -/

theorem maintains_declareClass (specifier : Node) (name : Encoding) {kind : SymbolKind}
    (span : Option Span) (plain : ∀ target, kind ≠ .typedefName target)
    (noFunction : kind.signature? = none) :
    Maintains holds (declareClass specifier name kind span) := by
  have inTarget : ∀ scope key,
      Maintains holds (declareClassIn specifier kind span scope key) := by
    intro scope key
    refine .bind (maintains_performDeclare stable _ _ _ _ _ plain ?_) fun declared => ?_
    · exact fun _ has => nomatch noFunction.symm.trans has
    cases declared with
    | ok id => exact .pure _
    | error refusal =>
      exact .after (looks_answer _) fun _ => .after (looks_reportRefusal _ _ _) fun _ => .pure _
  unfold declareClass
  refine .after reads_current fun scope => ?_
  dsimp only
  split
  · refine .after (reads_declarationTarget _ _) fun target => ?_
    cases target with
    | none => exact .after (looks_answer _) fun _ => .pure _
    | some found => exact inTarget found.1 found.2
  · exact inTarget scope name

theorem maintains_bindBase (scope source : ScopeId) (base : Node) :
    Maintains holds (bindBase scope source base) := by
  unfold bindBase
  dsimp only
  split
  · exact .pure _
  · refine .after (looks_answer _) fun span => .after (looks_ask _) fun denoted => ?_
    split
    · refine .after (looks_ask _) fun found => ?_
      split
      · exact .discard (.perform fun _ _ _ before done => stable.addBase before done)
      · exact .after (looks_answer _) fun _ => .looks (looks_report _ _ _)
    · exact .pure _
    · exact .looks (looks_reportLookup _ _)

/-! ## Enumerations -/

theorem maintains_bindEnumerator (type : Encoding) (next : Option Int64) (item : Node) :
    Maintains holds (bindEnumerator type next item) := by
  unfold bindEnumerator
  split
  · exact .pure _
  · have declares : ∀ (named : Node) (value : Option Int64), Maintains holds (do
        let scope ← current
        declareQuietly scope (.ofDeclaration (.simpleName named.text) (.enumerator value) type
          scope named.id (named.token?.map (·.span)))
        return value.bind successor?) := fun named value =>
      .after reads_current fun _ => .bind (maintains_declareQuietly stable _ _ _ _ _ nofun nofun)
        fun _ => .pure _
    dsimp only
    split
    · exact .after (looks_pure _) fun value => declares _ value
    · exact .after (looks_enumeratorValue _) fun value => declares _ value

theorem maintains_bindEnum (specifier : Node) : Maintains holds (bindEnum specifier) := by
  have enumerators : ∀ name : Encoding, Maintains holds (discard
      (specifier.third.second.present.foldlM (bindEnumerator name) (some 0))) := fun name =>
    .discard (.foldlM (fun next item => maintains_bindEnumerator stable name next item) _)
  have declares : ∀ (name : Encoding) (span : Option Span), Maintains holds (do
      if !specifier.second.isNil then
        let scope ← current
        declareQuietly scope (.ofDeclaration name .enumType name scope specifier.id span)
      discard (specifier.third.second.present.foldlM (bindEnumerator name) (some 0))) := by
    intro name span
    split
    · exact .after reads_current fun _ =>
        .bind (maintains_declareQuietly stable _ _ _ _ _ nofun nofun) fun _ => enumerators name
    · exact enumerators name
  unfold bindEnum
  dsimp only
  split
  · exact .given (reads_malformed _ _ _) fun _ _ _ impossible => impossible.elim
  · split
    · exact .looks (reads_malformed _ _ _).looks
    · refine .after (looks_answer _) fun span => ?_
      split
      · refine .after (looks_enumVisible _) fun known => ?_
        split
        · exact declares _ _
        · exact .pure _
      · refine .after (looks_pure _) fun known => ?_
        split
        · exact declares _ _
        · exact .pure _

end Steps

/-! ## Visits -/

/-- A visit keeps a property wherever names are used as they may be. -/
def VisitsMaintain (permits : Node → Prop) (holds : Table → Prop) (visit : Visit) : Prop :=
  ∀ node, Permitted permits node.preorder → Maintains holds (visit node)

section Visits

variable (stable : Stable permits holds) {visit : Visit} (well : VisitsMaintain permits holds visit)

include well

theorem maintains_visitElements {node : Node} (fits : Permitted permits node.preorder) :
    Maintains holds (visitElements visit node) :=
  .forM fun element member => well element (fits.present element member)

include stable

theorem maintains_bindNamespace {node : Node} (fits : Permitted permits node.preorder) :
    Maintains holds (bindNamespace visit node) := by
  have inside : ∀ scope, Maintains holds (inScope scope (visitElements visit node.third)) :=
    fun scope => .inScope (maintains_visitElements well (fits.nth 2))
  unfold bindNamespace
  dsimp only
  split
  · refine .bind (maintains_namespaceScope stable _ _) fun scope =>
      .bind (.annotate _ _) fun _ => ?_
    split
    · refine .after reads_current fun outer => .bind (.discard (.perform ?_)) fun _ => inside scope
      exact fun _ _ _ before done => stable.addNominated before done
    · exact inside scope
  · exact .looks (reads_malformed _ _ _).looks

theorem maintains_bindClassBody {specifier body : Node} (fits : Permitted permits body.preorder)
    (header : Option ScopeId) (declared : DeclaredClass) :
    Maintains holds (bindClassBody visit specifier body header declared) := by
  rw [bindClassBody_eq]
  exact .bind (maintains_scopeFor stable _ _ _) fun _ => .bind (.annotate _ _) fun _ =>
    .bind (.forM fun base _ => maintains_bindBase stable _ _ base) fun _ =>
      .bind (maintains_defineScope stable _ _) fun _ =>
        .inScope (maintains_visitElements well fits)

theorem maintains_bindClass {specifier : Node} (fits : Permitted permits specifier.preorder)
    (use : ClassUse) (header : Option ScopeId) :
    Maintains holds (bindClass visit specifier use header) := by
  have declares : ∀ (name : Encoding) (span : Option Span) (defined : Bool),
      Maintains holds (do
        let declared ← declareClass specifier name (if header.isSome then .classTemplate defined
          else .classType defined) span
        if defined then bindClassBody visit specifier (specifier.nth 3) header declared) := by
    intro name span defined
    refine .bind (maintains_declareClass stable _ _ _ ?_ ?_) fun declared => ?_
    · split <;> exact nofun
    · split <;> rfl
    split
    · exact maintains_bindClassBody stable well (fits.nth 3) _ _
    · exact .pure _
  unfold bindClass
  dsimp only
  split
  · exact .given (reads_malformed _ _ _) fun _ _ _ impossible => impossible.elim
  · split
    · exact .looks (reads_malformed _ _ _).looks
    · refine .after (looks_answer _) fun span => ?_
      split
      · refine .after (looks_namesOnly _ _ _) fun done => ?_
        split
        · exact declares _ _ _
        · exact .pure _
      · refine .after (looks_pure _) fun done => ?_
        split
        · exact declares _ _ _
        · exact .pure _

theorem maintains_bindSpecifier {specifier : Node} (fits : Permitted permits specifier.preorder)
    (use : ClassUse) (header : Option ScopeId) :
    Maintains holds (bindSpecifier visit use header specifier) := by
  unfold bindSpecifier
  split
  · exact maintains_bindEnum stable specifier
  · exact maintains_bindClass stable well fits use header

theorem maintains_bindType {words : Node} (fits : Permitted permits words.preorder)
    (use : ClassUse) (header : Option ScopeId) :
    Maintains holds (bindType visit words use header) :=
  .forM fun word member => maintains_bindSpecifier stable well
    (fits.typeWords word (List.mem_filter.mp member).1) use header

/-! ## Functions and variables -/

theorem maintains_bindParameters {parameters : Node}
    (fits : Permitted permits parameters.preorder) (scope : ScopeId) :
    Maintains holds (bindParameters visit parameters scope) := by
  refine .inScope (.forM fun parameter member => ?_)
  have fitsParameter := fits.present parameter (List.mem_filter.mp member).1
  have elements := maintains_visitElements well (fitsParameter.nth 2)
  unfold bindParameter
  dsimp only
  split
  · exact .after (looks_answer _) fun _ =>
      .bind (maintains_declareQuietly stable _ _ _ _ _ nofun nofun) fun _ => elements
  · exact elements

omit stable well in
theorem announces_declarator {declarator : Node} (fits : Permitted permits declarator.preorder)
    (isDeclarator : declarator.isA .declarator = true) (isTemplate defined : Bool)
    (signature : Signature) (has : (functionKind declarator.parameterList isTemplate
      defined).signature? = some signature) :
    Announces permits declarator.id (declarator.type?.getD .empty) signature := by
  refine ⟨declarator, fits declarator (mem_preorder_of_isA isDeclarator), rfl, rfl, ?_⟩
  exact Option.some.inj ((signature?_functionKind _ _ _).symm.trans has)

theorem maintains_bindPrototype {declarator : Node}
    (fits : Permitted permits declarator.preorder) (isDeclarator : declarator.isA .declarator = true)
    (name : Encoding) (span : Option Span) (storage : Storage) (header : Option ScopeId) :
    Maintains holds (bindPrototype visit declarator name (declarator.type?.getD .empty) span storage
      header) := by
  have announced := announces_declarator fits isDeclarator header.isSome false
  unfold bindPrototype
  split
  · exact .pure _
  · exact .bind (maintains_declareNamed stable _ _ _ _ (body_functionKind _ _ _).2 announced) fun _ =>
      .bind (.bind (maintains_scopeFor stable _ _ _) fun _ => .bind (.annotate _ _) fun _ =>
        .pure _) fun _ => maintains_bindParameters stable well fits.parameterList _

/-- What comes behind the declaration of a function that is defined. -/
theorem maintains_behindDefinition {node declarator body : Node}
    (fits : Permitted permits node.preorder)
    (fitsDeclarator : Permitted permits declarator.preorder)
    (fitsBody : Permitted permits body.preorder) (name : Encoding) (header : Option ScopeId)
    (symbol : Option SymbolId) (declaring : ScopeId) :
    Maintains holds (do
      moveHeader name header declaring
      let (prototype, scope) ← functionScope node declarator body name (header.getD declaring)
      defineScope symbol scope
      bindParameters visit declarator.parameterList prototype
      inScope scope (bindFunctionBody visit node body)) := by
  have moves : Maintains holds (moveHeader name header declaring) := by
    cases header with
    | none => exact .pure _
    | some scope =>
      unfold moveHeader
      dsimp only
      split
      · exact .replace fun _ _ before done => stable.reparent before done
      · exact .pure _
  have scopes : ∀ outer, Maintains holds (functionScope node declarator body name outer) :=
    fun outer => .bind (.bind (maintains_scopeFor stable _ _ _) fun _ =>
      .bind (.annotate _ _) fun _ => .pure _) fun _ => .after (looks_answer _) fun _ =>
        .after (looks_answer _) fun _ => .bind (maintains_scopeFor stable _ _ _) fun scope =>
          .bind (.annotate _ _) fun _ => .bind (.annotate _ _) fun _ =>
            .bind (.change fun _ before => stable.setNodeScope body.id scope before) fun _ => .pure _
  have inside : Maintains holds (bindFunctionBody visit node body) := by
    unfold bindFunctionBody
    dsimp only
    split
    · exact .bind (well _ (fits.nth 3)) fun _ => maintains_visitElements well fitsBody
    · exact maintains_visitElements well fitsBody
  exact .bind moves fun _ => .bind (scopes _) fun _ => .bind (maintains_defineScope stable _ _)
    fun _ => .bind (maintains_bindParameters stable well fitsDeclarator.parameterList _)
      fun _ => .inScope inside

theorem maintains_bindDefinition {node declarator body : Node}
    (fits : Permitted permits node.preorder)
    (fitsDeclarator : Permitted permits declarator.preorder)
    (isDeclarator : declarator.isA .declarator = true)
    (fitsBody : Permitted permits body.preorder) (name : Encoding) (header : Option ScopeId) :
    Maintains holds (bindDefinition visit node declarator body name header) := by
  rw [bindDefinition_eq]
  exact .after (looks_answer _) fun _ =>
    .bind (maintains_declareNamed stable _ _ _ _ (body_functionKind _ _ _).2
      (announces_declarator fitsDeclarator isDeclarator _ _)) fun declared =>
    maintains_behindDefinition stable well fits fitsDeclarator fitsBody name header declared.1
      declared.2

theorem maintains_bindFunction {node : Node} (fits : Permitted permits node.preorder)
    (isDeclarator : node.third.isA .declarator = true) (header : Option ScopeId) :
    Maintains holds (bindFunction visit node header) := by
  unfold bindFunction
  dsimp only
  split
  · exact .looks (reads_malformed _ _ _).looks
  · split
    · exact .looks (reads_malformed _ _ _).looks
    · split
      · exact .looks (reads_malformed _ _ _).looks
      · exact maintains_bindDefinition stable well fits (fits.nth 2) isDeclarator fits.last _ _

theorem maintains_bindDeclarator {declarator : Node}
    (fits : Permitted permits declarator.preorder) (isDeclarator : declarator.isA .declarator = true)
    (storage : Storage) (header : Option ScopeId) :
    Maintains holds (bindDeclarator visit storage header declarator) := by
  unfold bindDeclarator
  split
  · exact maintains_visitElements well fits
  · refine .after (looks_answer _) fun span => ?_
    split
    · exact maintains_bindPrototype stable well fits isDeclarator _ _ _ _
    · exact .given (reads_variableKind _ _ _) fun _ _ _ plain =>
        .bind (.discard (maintains_declareNamed stable _ _ _ _ plain.2 fun _ has =>
          nomatch plain.1.symm.trans has)) fun _ =>
          maintains_visitElements well fits

theorem maintains_bindDeclaration {node : Node} (fits : Permitted permits node.preorder) :
    Maintains holds (bindDeclaration visit node) := by
  have declarators : ∀ storage header, Maintains holds
      ((node.third.present.filter (·.isA .declarator)).forM (bindDeclarator visit storage header)) :=
    fun storage header => .forM fun declarator member =>
      maintains_bindDeclarator stable well
        ((fits.nth 2).present declarator (List.mem_filter.mp member).1) (List.mem_filter.mp member).2
        storage header
  unfold bindDeclaration
  refine .bind (.after reads_get fun _ => .bind (.modify fun _ => rfl) fun _ => .pure _)
    fun header => ?_
  dsimp only
  split
  · next isDeclarator =>
    exact .bind (maintains_bindType stable well (fits.nth 1) _ _) fun _ =>
      maintains_bindFunction stable well fits isDeclarator header
  · split
    · exact .bind (maintains_bindType stable well (fits.nth 1) _ _) fun _ => declarators _ _
    · exact .bind (maintains_bindType stable well (fits.nth 1) _ _) fun _ => declarators _ _

omit well in
/-- What a type definition names is found in the table that it is declared in. -/
theorem maintains_bindTypedefName (declarator : Node) :
    Maintains holds (bindTypedefName declarator) := by
  unfold bindTypedefName
  split
  · exact .pure _
  intro surroundings state before
  refine .given before reads_current fun scope first sameFirst _ => ?_
  rw [← sameFirst] at before
  refine .given before (reads_aliasedSymbol _) fun found second sameSecond there => ?_
  rw [← sameSecond] at before there
  refine .given before (looks_answer _) fun span third sameThird _ => ?_
  rw [← sameThird] at before there
  refine (endsWith_declare stable before (fun target is => ?_) fun _ has => ?_).discard
  · exact there target (SymbolKind.typedefName.inj is)
  · cases has

theorem maintains_bindTypedef {node : Node} (fits : Permitted permits node.preorder) :
    Maintains holds (bindTypedef visit node) :=
  .bind (maintains_bindType stable well (fits.nth 1) _ _) fun _ =>
    .forM fun declarator _ => maintains_bindTypedefName stable declarator

theorem maintains_bindTemplate {node : Node} (fits : Permitted permits node.preorder) :
    Maintains holds (bindTemplate visit node) := by
  have parameter : ∀ scope item, Maintains holds (bindTemplateParameter scope item) := by
    intro scope item
    unfold bindTemplateParameter
    dsimp only
    split
    · split
      · exact maintains_declareQuietly stable _ _ _ _ _ nofun nofun
      · exact .pure _
    · split
      · split
        · exact .pure _
        · exact .after (looks_answer _) fun _ => maintains_declareQuietly stable _ _ _ _ _ nofun nofun
      · exact .pure _
  unfold bindTemplate
  dsimp only
  split
  · exact .given (reads_malformed _ _ _) fun _ _ _ impossible => impossible.elim
  · refine .bind (.after reads_get fun _ => .bind (.modify fun _ => rfl) fun _ => .pure _)
      fun header => .after reads_current fun _ => .bind (maintains_scopeFor stable _ _ _) fun _ =>
        .bind (.annotate _ _) fun _ => .bind (.forM fun item _ => parameter _ item) fun _ => ?_
    exact .bind (.modify fun _ => rfl) fun _ => .bind (well _ (fits.nth 4)) fun _ =>
      .modify fun _ => rfl

/-! ## Using -/

omit well in
theorem maintains_bindUsingDirective (node : Node) : Maintains holds (bindUsingDirective node) := by
  unfold bindUsingDirective
  split
  · exact .looks (reads_malformed _ _ _).looks
  refine .after (looks_answer _) fun span => .after reads_current fun scope =>
    .after (looks_ask _) fun here => ?_
  split
  · exact .looks (looks_report _ _ _)
  refine .after (looks_answer _) fun text => .after (looks_ask _) fun found => ?_
  split
  · refine .after (looks_ask _) fun target => ?_
    split
    · exact .discard (.perform fun _ _ _ before done => stable.addNominated before done)
    · exact .looks (looks_report _ _ _)
  · exact .looks (looks_report _ _ _)
  · exact .looks (looks_report _ _ _)
  · exact .looks (looks_reportLookup _ _)

omit well in
/-- A symbol becomes visible where nothing of its name is in the way, and all symbols stay. -/
theorem maintains_bindUsed {key : Encoding}
    (allows : ∃ node, permits node ∧ usedName? node = some key) (name : Encoding)
    (span : Option Span) {ids : List SymbolId} {id : SymbolId} (member : id ∈ ids) :
    Maintains (fun table => holds table ∧ table.AllThere ids) (bindUsed name key span id) := by
  intro surroundings state before
  have here : current surroundings state = .ok surroundings.current state := rfl
  unfold bindUsed
  rw [Binds.bind_of_ok here]
  refine .ask before fun found read => .ask before fun obstacle asked => ?_
  cases obstacle with
  | some previous =>
    exact Maintains.after (looks_answer _) (fun _ => .looks (looks_reportRefusal _ _ _))
      surroundings state before
  | none =>
    refine .discard (.perform before fun after fresh done => ⟨?_, ?_⟩)
    · exact stable.makeVisible before.1 (before.2 id member) allows ⟨found, read, asked⟩ done
    · rcases of_makeVisible done with ⟨_, _, rfl⟩
      exact before.2

omit well in
/-- A using-declaration makes symbols visible under the last component of its name. -/
theorem maintains_bindUsingDeclaration {node : Node} (fits : Permitted permits node.preorder)
    (isUsing : node.isA .usingDeclaration = true) :
    Maintains holds (bindUsingDeclaration node) := by
  unfold bindUsingDeclaration
  split
  · exact .looks (reads_malformed _ _ _).looks
  next name named =>
  intro surroundings state before
  refine .given before (looks_answer _) fun span first sameFirst _ => ?_
  rw [← sameFirst] at before
  refine .given before reads_site fun here second sameSecond isHere => ?_
  subst isHere
  rw [← sameSecond] at before
  refine .given before (reads_answer _) fun looked third sameThird ran => ?_
  rw [← sameThird] at before
  have same : third.table = first.table := sameThird.trans sameSecond
  cases looked with
  | error error => exact Maintains.looks (looks_reportLookup _ _) surroundings third before
  | ok found =>
    -- the symbols that were found stay in the table while one after the other becomes visible
    have there : third.table.AllThere found.ids := same ▸ allThere_of_lookup ran
    refine EndsWith.imp ((?_ : Maintains (fun table => holds table ∧ table.AllThere found.ids) _)
      surroundings third ⟨before, there⟩) fun _ both => both.1
    dsimp only
    split
    · exact .pure _
    split
    · exact .after (looks_answer _) fun _ => .looks (looks_report _ _ _)
    refine .given (reads_answer _) fun _ _ last lastOf =>
      .given (reads_answer _) fun _ _ key keyOf => .forM fun id member =>
        maintains_bindUsed stable ⟨node, fits node ?_, ?_⟩ _ _ member
    · exact mem_preorder_of_isA isUsing
    · unfold usedName?
      rw [if_pos isUsing, named]
      simp only [Option.bind_some, lastOf, keyOf, Except.toOption]

/-! ## Nodes and trees -/

theorem maintains_bindBlock {node : Node} (fits : Permitted permits node.preorder) :
    Maintains holds (bindBlock visit node) :=
  .after reads_current fun _ => .bind (maintains_scopeFor stable _ _ _) fun _ =>
    .bind (.annotate _ _) fun _ => .inScope (maintains_visitElements well fits)

theorem maintains_bindNode : VisitsMaintain permits holds (bindNode visit) := by
  intro node fits
  unfold bindNode
  split
  · exact .pure _
  next construct spells =>
  cases construct with
  | namespaceSpec => exact maintains_bindNamespace stable well fits
  | classSpec => exact maintains_bindClass stable well fits _ _
  | enumSpec => exact maintains_bindEnum stable node
  | declaration => exact maintains_bindDeclaration stable well fits
  | typedefDecl => exact maintains_bindTypedef stable well fits
  | templateDecl => exact maintains_bindTemplate stable well fits
  | usingDirective => exact maintains_bindUsingDirective stable node
  | usingDeclaration => exact maintains_bindUsingDeclaration stable fits (beq_of_eq spells)
  | block => exact maintains_bindBlock stable well fits
  | forStatement =>
    dsimp only
    unfold bindFor
    split
    · exact .looks (reads_malformed _ _ _).looks
    · exact maintains_bindBlock stable well fits
  | dotMemberExpr | arrowMemberExpr =>
    refine .after looks_read fun surroundings => ?_
    dsimp only
    split <;> split
    · exact .after (looks_answer _) fun _ => .after (looks_report _ _ _) fun _ => well _ (fits.nth 0)
    · exact .after (looks_answer _) fun _ => .looks (looks_report _ _ _)
    · exact well _ (fits.nth 0)
    · exact .pure _
  | _ => exact maintains_visitElements well fits

end Visits

theorem Stable.visits (stable : Stable permits holds) (size : Nat) :
    VisitsMaintain permits holds (bindWithin size) := by
  induction size with
  | zero => exact fun node fits surroundings state before => before
  | succ size ih => exact maintains_bindNode stable ih

/-- A stable property survives a pass over a tree whose nodes are permitted. -/
theorem Stable.bind (stable : Stable permits holds) {tree : Node}
    (fits : Permitted permits tree.preorder) (file : String) (options : BindOptions)
    {bound : Bound} (before : holds bound.table) :
    holds (CppNames.bind file options tree bound).1.table := by
  have ends := maintains_visitElements (stable.visits tree.size) fits ⟨file, options, global⟩
    ⟨bound.table, bound.annotations, none, []⟩ before
  unfold CppNames.bind
  dsimp only
  change EndsWith holds (bindTree tree _ _) at ends
  cases result : bindTree tree ⟨file, options, global⟩ ⟨bound.table, bound.annotations, none, []⟩ with
  | error error after =>
    rw [result] at ends
    exact ends
  | ok value after =>
    rw [result] at ends
    exact ends

end Binding
end CppNames
