import CppNames.Proofs.Binding.KeepDeclaration
import Mathlib.Data.Set.Lattice
import Mathlib.Order.CompletePartialOrder

namespace CppNames
namespace Binding

/-!
# Steps taken apart

`Keeps` says of a step what it leaves true of a table.  To compare two runs, or to say what is left
at the end of what happened in between, a run has to be taken apart into the runs of its steps.

What makes this useful is that every node is used in one place only.  While one part of the tree is
bound, nothing happens to what another part has noted and declared.  `Use` tells what a step does
with the number of a node, and the two steps of a sequence have no use in common.
-/

open Table

variable {surroundings : Surroundings} {table after : Table} {pending : Option ScopeId}

/-! ## Uses -/

/-- What a step does with the number of a node. -/
inductive Use where
  /-- A scope is noted for the node. -/
  | note (label : Tree.NodeId)
  /-- The node declares something. -/
  | declare (label : Tree.NodeId)

/-- The number that is used. -/
def Use.label : Use → Tree.NodeId
  | .note label | .declare label => label

/-- All uses of some nodes. -/
def usesOf (parts : List Node) : Set Use := {use | use.label ∈ parts.map Tree.id}

theorem usesOf_mono {some parts : List Node} (inside : some ⊆ parts) :
    usesOf some ⊆ usesOf parts := fun _ member => List.map_subset Tree.id inside member

theorem mem_usesOf {use : Use} {parts : List Node} {part : Node} (member : part ∈ parts)
    (same : use.label = part.id) : use ∈ usesOf parts := by
  change use.label ∈ parts.map Tree.id
  rw [same]
  exact List.mem_map_of_mem member

/-- Uses of two steps that have none in common. -/
structure Splits (uses front back : Set Use) : Prop where
  inFront : front ⊆ uses
  inBack : back ⊆ uses
  apart : Disjoint front back

theorem Splits.only (uses : Set Use) : Splits uses uses ∅ :=
  ⟨subset_rfl, Set.empty_subset uses, Set.disjoint_empty uses⟩

theorem Splits.none (uses : Set Use) : Splits uses ∅ uses :=
  ⟨Set.empty_subset uses, subset_rfl, Set.empty_disjoint uses⟩

theorem distinct_of_subperm {some parts : List Node} (inside : some.Subperm parts)
    (distinct : (parts.map Tree.id).Nodup) : (some.map Tree.id).Nodup := by
  rcases inside with ⟨others, same, sublist⟩
  exact (same.map Tree.id).nodup_iff.mp (distinct.sublist (sublist.map Tree.id))

/-- Nodes of a tree whose nodes are all different, and other nodes of it. -/
theorem Splits.ofParts {parts first second : List Node} (inside : (first ++ second).Subperm parts)
    (distinct : (parts.map Tree.id).Nodup) :
    Splits (usesOf parts) (usesOf first) (usesOf second) where
  inFront := usesOf_mono fun _ member => inside.subset (List.mem_append_left _ member)
  inBack := usesOf_mono fun _ member => inside.subset (List.mem_append_right _ member)
  apart := by
    have both := distinct_of_subperm inside distinct
    rw [List.map_append] at both
    rw [Set.disjoint_left]
    exact fun use inFirst inSecond =>
      (List.nodup_append.mp both).2.2 use.label inFirst use.label inSecond rfl

/-- A step whose first part is split once more. -/
theorem Splits.assoc {uses front back first second : Set Use} (whole : Splits uses front back)
    (own : Splits front first second) :
    Splits uses first (second ∪ back) ∧ Splits (second ∪ back) second back where
  left := {
    inFront := own.inFront.trans whole.inFront
    inBack := Set.union_subset (own.inBack.trans whole.inFront) whole.inBack
    apart := Set.disjoint_union_right.mpr ⟨own.apart, whole.apart.mono_left own.inFront⟩ }
  right := {
    inFront := Set.subset_union_left
    inBack := Set.subset_union_right
    apart := whole.apart.mono_left own.inBack }

theorem Splits.narrow {uses front back less : Set Use} (splits : Splits uses front back)
    (fits : less ⊆ front) : Splits uses less back :=
  ⟨fits.trans splits.inFront, splits.inBack, splits.apart.mono_left fits⟩

theorem preorder_of_isA {node : Node} {construct : Construct} (is : node.isA construct = true) :
    node.preorder = [node] ++ Tree.parts node.elements := by
  refine Tree.preorder_eq ?_
  cases node with
  | cell => rfl
  | _ => cases is

/-- A node declares something, and then it has a scope. -/
theorem Splits.declareNote (node : Node) :
    Splits (usesOf [node]) {.declare node.id} {.note node.id} where
  inFront := by
    rintro use rfl
    exact List.mem_singleton_self _
  inBack := by
    rintro use rfl
    exact List.mem_singleton_self _
  apart := Set.disjoint_singleton.mpr nofun

theorem note_mem_usesOf (node : Node) : .note node.id ∈ usesOf [node] :=
  (Splits.declareNote node).inBack rfl

theorem declare_subset_usesOf {node : Node} {parts : List Node} (member : node ∈ parts) :
    {.declare node.id} ⊆ usesOf parts := by
  have among : node.id ∈ parts.map Tree.id := List.mem_map_of_mem member
  rintro use rfl
  exact among

/-! ## Runs of steps -/

section

variable {α β : Type} {step : Bind α} {post : α → Table → Option ScopeId → Prop}

theorem Keeps.ends {setting : Setting} (keeps : Keeps setting surroundings table pending step post)
    {state after : State} {value : α} (sameTable : state.table = table)
    (sameHeader : state.header = pending) (runs : step surroundings state = .ok value after) :
    Ready setting surroundings after.table after.header ∧ Evolves setting table after.table ∧
      (after.header = none ∨ after.header = pending) ∧
      Adds setting surroundings.file state after ∧ post value after.table after.header := by
  have ends := keeps state sameTable sameHeader
  rw [runs] at ends
  subst sameTable sameHeader
  exact ends

/-- What is noted on a node, if it can have a scope. -/
def notesOn (node : Node) (scope : ScopeId) : Annotations :=
  if node.isCell then [(node.id, scope)] else []

theorem annotate_runs (node : Node) (scope : ScopeId) (state : State) :
    annotate node scope surroundings state =
      .ok () { state with annotations := notesOn node scope ++ state.annotations } := by
  unfold annotate notesOn
  split <;> rfl

/-- A scope that is entered and noted on a node. -/
theorem ok_of_noting {enter : Bind ScopeId} {node : Node} {state after : State} {scope : ScopeId}
    (runs : (do
      let scope ← enter
      annotate node scope
      return scope : Bind ScopeId) surroundings state = .ok scope after) :
    ∃ middle, enter surroundings state = .ok scope middle ∧
      after = { middle with annotations := notesOn node scope ++ middle.annotations } := by
  rcases Binds.of_bind runs with ⟨entered, middle, enters, rest⟩
  rcases Binds.of_bind rest with ⟨_, last, annotates, returns⟩
  rw [annotate_runs] at annotates
  cases annotates
  cases returns
  exact ⟨middle, enters, rfl⟩

end

theorem ok_of_perform {α : Type} {operation : Table → Outcome (Table × α)} {state behind : State}
    {value : α} (runs : perform operation surroundings state = .ok value behind) :
    operation state.table = .ok (behind.table, value) ∧ behind.header = state.header ∧
      behind.log = state.log := by
  rcases of_perform runs with ⟨table, done, rfl⟩
  exact ⟨done, rfl, rfl⟩

theorem get_bind_apply {α : Type} (next : State → Bind α) (state : State) :
    ((get : Bind State) >>= next) surroundings state = next state surroundings state := rfl

theorem scopeFor_of_noted {node : Tree.NodeId} {outer scope : ScopeId} {region : Region}
    {state : State} (noted : state.table.scopeOfNode? node = some scope) :
    scopeFor node outer region surroundings state = .ok scope state := by
  unfold scopeFor
  rw [get_bind_apply, noted]
  rfl

theorem noted_of_scopeFor {node : Tree.NodeId} {outer scope : ScopeId} {region : Region}
    {state behind : State} (inside : state.table.HasScope outer)
    (runs : scopeFor node outer region surroundings state = .ok scope behind) :
    behind.table.scopeOfNode? node = some scope ∧ behind.annotations = state.annotations := by
  cases noted : state.table.scopeOfNode? node with
  | some old =>
    rw [scopeFor_of_noted noted] at runs
    cases runs
    exact ⟨noted, rfl⟩
  | none =>
    unfold scopeFor at runs
    rw [get_bind_apply, noted] at runs
    dsimp only at runs
    rw [createScope_runs inside] at runs
    cases runs
    refine ⟨?_, rfl⟩
    unfold Table.scopeOfNode?
    rw [nodeScopes_createScope region inside node, List.find?_cons_of_pos (by simp)]
    rfl

/-- A step with a header pending. -/
theorem ok_of_withHeader {step : Bind Unit} {scope : ScopeId} {state after : State} {done : Unit}
    (runs : (do
      modify fun state => { state with header := some scope }
      step
      modify fun state => { state with header := none } : Bind Unit) surroundings state =
        .ok done after) :
    ∃ last, step surroundings { state with header := some scope } = .ok () last ∧
      after = { last with header := none } := by
  rcases Binds.of_bind runs with ⟨_, _, opened, rest⟩
  cases opened
  rcases Binds.of_bind rest with ⟨_, last, ran, closed⟩
  cases closed
  exact ⟨last, ran, rfl⟩

/-! ## Declarations -/

theorem mem_declarers_of_declaredBy? {node : Tree.NodeId} {ids : List SymbolId} {id : SymbolId}
    (found : table.declaredBy? node ids = .ok (some id)) : node ∈ declarers table id := by
  induction ids with
  | nil => cases found
  | cons first rest ih =>
    rcases Outcome.of_bind found with ⟨symbol, read, same⟩
    split at same
    · next declares =>
      cases same
      rw [declarers_of_symbol read]
      exact List.contains_iff_mem.mp declares
    · exact ih same

theorem not_mem_declarers_of_declaredBy? {node : Tree.NodeId} {ids : List SymbolId}
    (found : table.declaredBy? node ids = .ok none) {id : SymbolId} (member : id ∈ ids) :
    node ∉ declarers table id := by
  induction ids with
  | nil => exact absurd member List.not_mem_nil
  | cons first rest ih =>
    rcases Outcome.of_bind found with ⟨symbol, read, same⟩
    split at same
    · cases same
    · next other =>
      rcases List.mem_cons.mp member with rfl | behind
      · rw [declarers_of_symbol read]
        exact fun declares => other (List.contains_iff_mem.mpr declares)
      · exact ih same behind

/-- What was declared stands in its scope under its name. -/
theorem Declares.shows {scope : ScopeId} {symbol : Symbol} {id : SymbolId}
    (done : table.Declares scope symbol after (.ok id)) : Shows after scope symbol.name id := by
  cases done with
  | fresh found read judged =>
    refine ⟨found.bind symbol.name table.nextSymbol, ?_, ?_⟩
    · rw [scope_modifyScope, if_pos rfl, scope_withSymbol, read]
      rfl
    · rw [Scope.named_bind, if_pos rfl]
      exact Region.mem_including.mpr (.inr rfl)
  | again found id read judged => exact ⟨found, read, (of_judge_again judged).1⟩

theorem Shows.grows {scope : ScopeId} {name : Encoding} {id : SymbolId}
    (shows : Shows table scope name id) (grows : table.Grows after) : Shows after scope name id := by
  rcases shows with ⟨found, read, member⟩
  rcases grows.scope scope found read with ⟨later, readLater, _, names⟩
  exact ⟨later, readLater, (names name).subset member⟩

theorem mem_declarers_of_grows {label : Tree.NodeId} {id : SymbolId}
    (member : label ∈ declarers table id) (grows : table.Grows after) : label ∈ declarers after id := by
  cases read : table.symbol id with
  | error fault =>
    unfold declarers at member
    rw [read] at member
    exact absurd member List.not_mem_nil
  | ok symbol =>
    rcases grows.symbol id symbol read with ⟨later, readLater, grown⟩
    rw [declarers_of_symbol read] at member
    rw [declarers_of_symbol readLater]
    exact grown.declarations.subset member

/-- Declares a symbol and reports what is in its way. -/
def attempt (scope : ScopeId) (symbol : Symbol) (text : Bind String) (place : Option Span) :
    Bind (Except Refusal SymbolId) := do
  match ← perform (·.declare scope symbol) with
  | .ok id => return .ok id
  | .error refusal =>
    reportRefusal refusal (← text) place
    return .error refusal

theorem keeps_attempt {setting : Setting} (ready : Ready setting surroundings table pending)
    {name type : Encoding} {kind : SymbolKind} {scope : ScopeId} {node : Tree.NodeId}
    {span place : Option Span} {text : Bind String} (allowed : node ∈ setting.declaring)
    (aliased : ∀ target, kind = .typedefName (some target) → table.HasSymbol target)
    (spells : Looks text) :
    Keeps setting surroundings table pending
      (attempt scope (.ofDeclaration name kind type scope node span) text place)
      fun declared after left => pending = left ∧
        table.Declares scope (.ofDeclaration name kind type scope node span) after declared := by
  refine .bind (keeps_performDeclare ready allowed aliased) ?_
  rintro declared after left ready _ _ ⟨rfl, done⟩
  cases declared with
  | ok id => exact .pure ready ⟨rfl, done⟩
  | error refusal =>
    exact .behind ready spells fun _ _ => .behind ready (looks_reportRefusal _ _ _) fun _ _ =>
      .pure ready ⟨rfl, done⟩

/-- A report that a symbol is declared again. -/
def Remarks (made : Diagnostic) (previous : Symbol) : Prop :=
  ∃ (name file : String) (place : Option Span), made =
    Diagnostic.withRelated { Diagnostic.make .redeclaration [name] with
      file := some file, span := place } { Diagnostic.make .previousDeclaration [name] with
      file := some file, span := previous.span }

/-- A refusal is reported with a note on the symbol that is in the way. -/
theorem ok_of_reportRefusal {refusal : Refusal} {text : String} {place : Option Span}
    {state behind : State} {done : Unit}
    (runs : reportRefusal refusal text place surroundings state = .ok done behind) :
    ∃ made previous, state.table.symbol refusal.previous = .ok previous ∧
      behind = { state with log := state.log ++ [made] } ∧
      (refusal.redefinition = false → Remarks made previous) := by
  rcases Binds.of_bind runs with ⟨previous, middle, asked, rest⟩
  rcases of_ask asked with ⟨read, rfl⟩
  cases rest
  refine ⟨_, previous, read, rfl, fun plain => ?_⟩
  rw [plain]
  exact ⟨text, surroundings.file, place, rfl⟩

/-- How an attempt to declare a symbol ends.  What is in the way is reported. -/
theorem ok_of_attempt {scope : ScopeId} {symbol : Symbol} {text : Bind String} {place : Option Span}
    {state behind : State} {declared : Except Refusal SymbolId} (spells : Looks text)
    (runs : attempt scope symbol text place surroundings state = .ok declared behind) :
    state.table.declare scope symbol = .ok (behind.table, declared) ∧
      behind.header = state.header ∧ state.log <+: behind.log ∧
      ∀ refusal, declared = .error refusal → ∃ made ∈ behind.log, ∃ previous,
        behind.table.symbol refusal.previous = .ok previous ∧
        (refusal.redefinition = false → Remarks made previous) := by
  rcases Binds.of_bind runs with ⟨answer, middle, performed, rest⟩
  rcases ok_of_perform performed with ⟨done, header, log⟩
  cases answer with
  | ok id =>
    cases rest
    exact ⟨done, header, log ▸ List.prefix_refl _, nofun⟩
  | error refusal =>
    rcases Binds.of_bind rest with ⟨spelled, between, spelling, rest⟩
    rcases Binds.of_bind rest with ⟨_, last, reported, rest⟩
    cases rest
    have leaves := spells surroundings middle
    rw [spelling] at leaves
    rcases ok_of_reportRefusal reported with ⟨made, previous, read, rfl, remarks⟩
    refine ⟨leaves.1.table ▸ done, leaves.1.header.trans header, ?_, ?_⟩
    · exact log ▸ leaves.1.log.isPrefix.trans (List.prefix_append ..)
    · rintro other is
      cases is
      exact ⟨made, List.mem_append_right _ (List.mem_singleton_self _), previous, read, remarks⟩

theorem declare_eq_attempt (scope : ScopeId) (symbol : Symbol) :
    declare scope symbol = (do
      let name ← answer symbol.nameText
      match ← attempt scope symbol (pure name) symbol.span with
      | .ok id => return some id
      | .error _ => return none) := by
  unfold declare attempt
  simp only [bind_assoc, pure_bind]
  congr 1
  funext name
  congr 1
  funext declared
  cases declared <;> simp only [bind_assoc, pure_bind]

theorem declareClass_eq_attempt (specifier : Node) (name : Encoding) (kind : SymbolKind)
    (span : Option Span) (unqualified : ¬ name.isQualified = true) :
    declareClass specifier name kind span = (do
      let scope ← current
      match ← attempt scope (.ofDeclaration name kind name scope specifier.id span)
        (answer name.shown) span with
      | .ok id => return ⟨some id, scope, name⟩
      | .error _ => return ⟨none, scope, name⟩) := by
  unfold declareClass attempt
  simp only [if_neg unqualified, bind_assoc, pure_bind]
  congr 1
  funext scope
  congr 1
  funext declared
  cases declared <;> simp only [bind_assoc, pure_bind]

/-- A symbol that is no namespace. -/
def Blocks (table : Table) (id : SymbolId) : Prop :=
  ∃ symbol, table.symbol id = .ok symbol ∧ symbol.kind ≠ .namespaceName

theorem Blocks.grows {after : Table} {id : SymbolId} (blocks : Blocks table id)
    (grows : table.Grows after) : Blocks after id := by
  rcases blocks with ⟨symbol, read, other⟩
  rcases grows.symbol id symbol read with ⟨later, readLater, grown⟩
  refine ⟨later, readLater, fun same => other (isNamespace_of_body ?_)⟩
  rw [grown.resembles.1, same]
  rfl

theorem Blocks.kind_ne {id : SymbolId} (blocks : Blocks table id) {symbol : Symbol}
    (read : table.symbol id = .ok symbol) : symbol.kind ≠ .namespaceName := by
  rcases blocks with ⟨known, readKnown, other⟩
  rw [read] at readKnown
  cases readKnown
  exact other

/-- Only a namespace may declare a namespace again; whatever else has the name excludes it. -/
theorem relation_namespace {id : SymbolId} {old new : Symbol} (is : new.kind = .namespaceName) :
    relation id old new = if old.kind = .namespaceName then .merge else .conflict := by
  unfold relation
  rw [is]
  cases old.kind <;> simp [SymbolKind.isTagged, SymbolKind.isValue, SymbolKind.isFunction]

/-- Whatever refuses a namespace that its node has not declared yet is met first under the name, and
is no namespace. -/
theorem blocks_of_refused {scope : ScopeId} {symbol : Symbol} {refusal : Refusal}
    (is : symbol.kind = .namespaceName) (unmet : ∀ id, symbol.node ∉ declarers table id)
    (declares : table.declare scope symbol = .ok (after, .error refusal)) :
    after = table ∧ refusal.redefinition = false ∧ Blocks table refusal.previous ∧
      ∃ found rest, table.scope scope = .ok found ∧
        found.named symbol.name = refusal.previous :: rest := by
  rcases Outcome.of_bind declares with ⟨verdict, judged, becomes⟩
  rcases Outcome.of_bind judged with ⟨found, read, judged⟩
  rcases Outcome.of_bind judged with ⟨earlier, searched, judged⟩
  cases earlier with
  | some previous => exact absurd (mem_declarers_of_declaredBy? searched) (unmet previous)
  | none =>
    cases names : found.named symbol.name with
    | nil =>
      rw [names] at judged
      cases judged
      rcases Outcome.of_bind becomes with ⟨_, _, impossible⟩
      cases impossible
    | cons first rest =>
      rw [names] at judged
      rcases Outcome.of_bind judged with ⟨old, readOld, judged⟩
      rw [relation_namespace is] at judged
      by_cases merges : old.kind = .namespaceName
      · rw [if_pos merges] at judged
        cases judged
        cases becomes
      · rw [if_neg merges] at judged
        cases judged
        cases becomes
        exact ⟨rfl, rfl, ⟨old, readOld, merges⟩, found, rest, read, names⟩

/-- The scope of a namespace, given what became of its declaration. -/
def scopeOfDeclared (node : Tree.NodeId) (name : Encoding) (outer : ScopeId) :
    Except Refusal SymbolId → Bind ScopeId
  | .ok id => fragmentScope node name outer id
  | .error refusal => refusedScope node name outer refusal.previous

theorem namespaceScope_eq_attempt (node : Node) (name : Encoding) :
    namespaceScope node name = (do
      let outer ← current
      let span ← answer (node.second.orElse node.first).place
      scopeOfDeclared node.id name outer (← attempt outer
        (.ofDeclaration name .namespaceName name outer node.id span) (answer name.shown) span)) := by
  unfold namespaceScope attempt
  simp only [bind_assoc]
  congr 1
  funext outer
  congr 1
  funext span
  congr 1
  funext declared
  cases declared <;> simp only [bind_assoc, pure_bind, scopeOfDeclared]

/-! ## Definitions of functions -/

/-- The scopes that are noted for a function definition. -/
def notesOf (node declarator body : Node) : Set Use :=
  {.note declarator.id} ∪ ({.note node.id} ∪ {.note body.id})

/-- The nodes of a function definition that are bound behind the words of its type: those that
have scopes or declare the function, the parameters, the initializers and the body. -/
def definitionParts (node declarator body : Node) : List Node :=
  [node, declarator, body] ++ (declarator.parameterList.preorder ++
    ((memberInitializers node).preorder ++ Tree.parts body.present))

theorem Splits.definition (node declarator body : Node) :
    Splits (usesOf [node, declarator, body]) {.declare declarator.id}
      (notesOf node declarator body) where
  inFront := declare_subset_usesOf (by simp)
  inBack := by
    rintro use (rfl | rfl | rfl) <;> simp [usesOf, Use.label]
  apart := Set.disjoint_union_right.mpr ⟨Set.disjoint_singleton.mpr nofun,
    Set.disjoint_union_right.mpr ⟨Set.disjoint_singleton.mpr nofun, Set.disjoint_singleton.mpr nofun⟩⟩

/-- The scopes of a function definition are noted one after the other. -/
theorem Splits.notesOf {node declarator body : Node} (notNode : declarator.id ≠ node.id)
    (notBody : declarator.id ≠ body.id) (other : node.id ≠ body.id) :
    Splits (notesOf node declarator body) {.note declarator.id}
        ({.note node.id} ∪ {.note body.id}) ∧
      Splits ({Use.note node.id} ∪ {.note body.id}) {.note node.id} {.note body.id} where
  left := ⟨Set.subset_union_left, Set.subset_union_right, Set.disjoint_union_right.mpr
    ⟨Set.disjoint_singleton.mpr fun same => notNode (Use.note.inj same),
      Set.disjoint_singleton.mpr fun same => notBody (Use.note.inj same)⟩⟩
  right := ⟨Set.subset_union_left, Set.subset_union_right,
    Set.disjoint_singleton.mpr fun same => other (Use.note.inj same)⟩

/-- The nodes of a function definition are different ones. -/
theorem apart_of_definitionParts {node declarator body : Node}
    (distinct : ((definitionParts node declarator body).map Tree.id).Nodup) :
    declarator.id ≠ node.id ∧ declarator.id ≠ body.id ∧ node.id ≠ body.id := by
  simp only [definitionParts, List.cons_append, List.nil_append, List.map_cons, List.nodup_cons,
    List.mem_cons, not_or] at distinct
  exact ⟨Ne.symm distinct.1.1, distinct.2.1.1, distinct.1.2.1⟩

/-- The parts of a function definition, put in the order in which they are used. -/
theorem definition_subperm {node : Node} (is : node.isA .declaration = true)
    (isDeclarator : node.third.isA .declarator = true) (isBlock : node.last.isA .block = true) :
    (node.second.preorder ++ definitionParts node node.third node.last).Subperm node.preorder := by
  have parts := Tree.definition_parts_sublist isDeclarator isBlock
  rw [Tree.parts_cons, Tree.parts_cons, Tree.parts_cons, Tree.parts_cons,
    preorder_of_isA isDeclarator, preorder_of_isA isBlock] at parts
  have inner : ([node] ++ (node.second.preorder ++ (([node.third] ++
      node.third.parameterList.preorder) ++ ((memberInitializers node).preorder ++
        ([node.last] ++ Tree.parts node.last.present))))).Sublist node.preorder := by
    rw [preorder_of_isA is]
    refine .append (.refl _) (.trans (.append (.refl _) (.append (.append (.refl _) ?_)
      (.append (.refl _) (.trans (.append (.refl _) ?_) (List.sublist_append_left ..))))) parts)
    · exact Tree.preorder_elementBehind_sublist node.third .openParen
    · exact Tree.parts_sublist List.filter_sublist
  refine List.Perm.subperm ?_ |>.trans inner.subperm
  simp only [definitionParts, List.cons_append, List.nil_append]
  -- the declaration moves behind the words of its type, and the body in front of the parameters
  refine List.perm_middle.trans (.cons _ (.append_left _ (.cons _ ?_)))
  exact List.perm_middle.symm.trans (.append_left _ List.perm_middle.symm)

end Binding
end CppNames
