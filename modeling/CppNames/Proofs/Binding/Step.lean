import CppNames.Binding.Bind
import CppNames.Proofs.Reference.Walk

namespace CppNames
namespace Binding

/-!
# Steps of binding

`Binds` says of a step of binding that it meets no malformed construct and forgets no noted
scope, and that its answer satisfies a condition under the notes that it leaves and under all
later notes that hold more.  It may still stop where a computation has no answer.  Most steps
only report and declare; these are `Quiet`, and nothing more is said of them.
-/

/-- How a step may end that began under given notes. -/
def Leaves {α : Type} (before : Annotations) (post : α → Annotations → Prop) :
    EStateM.Result PassError State α → Prop
  | .ok value after => before.Within after.annotations ∧
      ∀ later, after.annotations.Within later → post value later
  | .error error _ => ∃ fault, error = .fault fault

/-- A step that meets no malformed construct and whose answer satisfies a condition under all
later notes. -/
def Binds {α : Type} (step : Bind α) (post : α → Annotations → Prop) : Prop :=
  ∀ surroundings state, Leaves state.annotations post (step surroundings state)

/-- A step that meets no malformed construct. -/
abbrev Quiet {α : Type} (step : Bind α) : Prop := Binds step fun _ _ => True

variable {α β : Type} {step : Bind α} {post : α → Annotations → Prop}

namespace Binds

theorem weaken {weaker : α → Annotations → Prop} (binds : Binds step post)
    (implies : ∀ value annotations, post value annotations → weaker value annotations) :
    Binds step weaker := by
  intro surroundings state
  have leaves := binds surroundings state
  cases result : step surroundings state with
  | error error after => rw [result] at leaves; exact leaves
  | ok value after =>
    rw [result] at leaves
    exact ⟨leaves.1, fun later within => implies value later (leaves.2 later within)⟩

theorem quiet (binds : Binds step post) : Quiet step := binds.weaken fun _ _ _ => trivial

theorem pure {value : α} (holds : ∀ annotations, post value annotations) :
    Binds (Pure.pure value : Bind α) post :=
  fun _ state => ⟨.refl state.annotations, fun later _ => holds later⟩

theorem bind_of_ok {next : α → Bind β} {surroundings : Surroundings} {state after : State}
    {value : α} (runs : step surroundings state = .ok value after) :
    (step >>= next) surroundings state = next value surroundings after := by
  change EStateM.bind (step surroundings) (fun value => next value surroundings) state = _
  unfold EStateM.bind
  rw [runs]

theorem bind_of_error {next : α → Bind β} {surroundings : Surroundings} {state after : State}
    {error : PassError} (runs : step surroundings state = .error error after) :
    (step >>= next) surroundings state = .error error after := by
  change EStateM.bind (step surroundings) (fun value => next value surroundings) state = _
  unfold EStateM.bind
  rw [runs]

/-- One step after another.  What the first one leaves holds under all later notes, so it
may be used for what the second one leaves. -/
theorem bind {next : α → Bind β} {final : β → Annotations → Prop} (first : Binds step post)
    (rest : ∀ value, Binds (next value) fun result annotations =>
      post value annotations → final result annotations) :
    Binds (step >>= next) final := by
  intro surroundings state
  have front := first surroundings state
  cases result : step surroundings state with
  | error error after =>
    rw [bind_of_error result]
    rw [result] at front
    exact front
  | ok value middle =>
    rw [bind_of_ok result]
    rw [result] at front
    have back := rest value surroundings middle
    cases resultBehind : next value surroundings middle with
    | error error after => rw [resultBehind] at back; exact back
    | ok last after =>
      rw [resultBehind] at back
      refine ⟨front.1.trans back.1, fun later within => ?_⟩
      exact back.2 later within (front.2 later (back.1.trans within))

/-- One step after another of which nothing is needed. -/
theorem after {next : α → Bind β} {final : β → Annotations → Prop} (first : Quiet step)
    (rest : ∀ value, Binds (next value) final) : Binds (step >>= next) final :=
  first.bind fun value => (rest value).weaken fun _ _ holds _ => holds

/-- What comes behind one of two steps of which nothing is needed. -/
theorem afterIf {condition : Prop} [Decidable condition] {other : Bind α} {next : α → Bind β}
    {final : β → Annotations → Prop} (yes : Quiet step) (no : Quiet other)
    (rest : ∀ value, Binds (next value) final) :
    Binds (if condition then step >>= next else other >>= next) final := by
  by_cases holds : condition
  · rw [if_pos holds]
    exact .after yes rest
  · rw [if_neg holds]
    exact .after no rest

theorem map {function : α → β} {final : β → Annotations → Prop}
    (binds : Binds step fun value => final (function value)) : Binds (function <$> step) final := by
  intro surroundings state
  have leaves := binds surroundings state
  change Leaves _ final (EStateM.map function (step surroundings) state)
  unfold EStateM.map
  cases result : step surroundings state with
  | error error after => rw [result] at leaves; exact leaves
  | ok value after => rw [result] at leaves; exact leaves

theorem discard (quiet : Quiet step) : Quiet (Functor.discard step) := by
  have mapped : Quiet ((fun _ => PUnit.unit) <$> step) := .map quiet
  exact mapped

theorem inScope {scope : ScopeId} (binds : Binds step post) :
    Binds (Binding.inScope scope step) post :=
  fun surroundings => binds { surroundings with current := scope }

theorem modify {change : State → State}
    (same : ∀ state, (change state).annotations = state.annotations) :
    Quiet (modify change : Bind PUnit) := by
  intro surroundings state
  have kept : state.annotations.Within (change state).annotations := by
    rw [same]
    exact .refl _
  exact ⟨kept, fun _ _ => trivial⟩

theorem get : Quiet (MonadState.get : Bind State) :=
  fun _ _ => ⟨.refl _, fun _ _ => trivial⟩

theorem read : Quiet (MonadReader.read : Bind Surroundings) :=
  fun _ _ => ⟨.refl _, fun _ _ => trivial⟩

theorem forM (property : β → Annotations → Prop) {items : List β} {visit : β → Bind PUnit}
    (all : ∀ item ∈ items, Binds (visit item) fun _ => property item) :
    Binds (items.forM visit) fun _ annotations => ∀ item ∈ items, property item annotations := by
  induction items with
  | nil => exact .pure fun annotations item member => absurd member (List.not_mem_nil)
  | cons first rest ih =>
    have behind := ih fun item member => all item (List.mem_cons_of_mem _ member)
    refine (all first (List.mem_cons_self ..)).bind fun _ => behind.weaken ?_
    intro _ annotations holdsRest holds
    exact List.forall_mem_cons.mpr ⟨holds, holdsRest⟩

theorem forMQuiet {items : List β} {visit : β → Bind PUnit} (all : ∀ item, Quiet (visit item)) :
    Quiet (items.forM visit) :=
  (forM (fun _ _ => True) fun item _ => all item).quiet

theorem foldlM {items : List β} {turn : α → β → Bind α} (all : ∀ value item, item ∈ items →
    Quiet (turn value item)) (start : α) : Quiet (items.foldlM turn start) := by
  induction items generalizing start with
  | nil => exact .pure fun _ => trivial
  | cons first rest ih =>
    rw [List.foldlM_cons]
    refine .after (all start first (List.mem_cons_self ..)) fun value => ?_
    exact ih (fun value item member => all value item (List.mem_cons_of_mem _ member)) value

end Binds

/-! ## Steps that have ended -/

section Ended

variable {surroundings : Surroundings} {state after : State} {value : α}

/-- Where two steps came to their end, the first one did. -/
theorem Binds.of_bind {next : α → Bind β} {result : β}
    (ran : (step >>= next) surroundings state = .ok result after) :
    ∃ value middle, step surroundings state = .ok value middle ∧
      next value surroundings middle = .ok result after := by
  cases first : step surroundings state with
  | error error middle =>
    rw [Binds.bind_of_error first] at ran
    cases ran
  | ok value middle =>
    rw [Binds.bind_of_ok first] at ran
    exact ⟨value, middle, rfl, ran⟩

theorem of_answer {outcome : Outcome α} (ran : answer outcome surroundings state = .ok value after) :
    outcome = .ok value ∧ after = state := by
  cases outcome with
  | error fault => cases ran
  | ok found =>
    cases ran
    exact ⟨rfl, rfl⟩

theorem of_ask {question : Table → Outcome α}
    (ran : ask question surroundings state = .ok value after) :
    question state.table = .ok value ∧ after = state := of_answer ran

theorem of_perform {operation : Table → Outcome (Table × α)}
    (ran : perform operation surroundings state = .ok value after) :
    ∃ table, operation state.table = .ok (table, value) ∧ after = { state with table := table } := by
  rcases Binds.of_bind ran with ⟨answered, middle, asked, rest⟩
  rcases of_ask asked with ⟨done, rfl⟩
  cases rest
  exact ⟨answered.1, done, rfl⟩

theorem of_discard {last : PUnit}
    (ran : (Functor.discard step : Bind PUnit) surroundings state = .ok last after) :
    ∃ value, step surroundings state = .ok value after := by
  change EStateM.map (fun _ => PUnit.unit) (step surroundings) state = _ at ran
  unfold EStateM.map at ran
  cases first : step surroundings state with
  | error error middle => rw [first] at ran; cases ran
  | ok value middle =>
    rw [first] at ran
    cases ran
    exact ⟨value, rfl⟩

/-- The state that a step leaves if it comes to its end. -/
def endState? : EStateM.Result PassError State Unit → Option State
  | .ok _ after => some after
  | .error .. => none

theorem of_endState? {result : EStateM.Result PassError State Unit}
    (ended : endState? result = some after) : result = .ok () after := by
  cases result <;> cases ended
  rfl

/-- The message of a refused declaration. -/
def refusalMessage (refusal : Table.Refusal) : Message :=
  if refusal.redefinition then .redefinition else .redeclaration

/-- A refusal is one report. -/
theorem of_reportRefusal {refusal : Table.Refusal} {name : String} {span : Option Span}
    {last : Unit} (ran : reportRefusal refusal name span surroundings state = .ok last after) :
    ∃ made : Diagnostic, made.code = (refusalMessage refusal).code ∧
      after = { state with log := state.log ++ [made] } := by
  rcases Binds.of_bind ran with ⟨previous, middle, asked, rest⟩
  rcases of_ask asked with ⟨-, rfl⟩
  cases rest
  exact ⟨_, rfl, rfl⟩

/-- A declaration changes the table as the table says, and reports a refusal and nothing else. -/
theorem of_declare {scope : ScopeId} {symbol : Symbol} {id : Option SymbolId}
    (ran : declare scope symbol surroundings state = .ok id after) :
    ∃ table answered, state.table.declare scope symbol = .ok (table, answered) ∧
      ∃ reports, after = { state with table := table, log := state.log ++ reports } ∧
        ((∃ known, answered = .ok known ∧ id = some known ∧ reports = []) ∨
          ∃ refusal, answered = .error refusal ∧ id = none ∧
            reports.map (·.code) = [(refusalMessage refusal).code]) := by
  rcases Binds.of_bind ran with ⟨text, first, shown, behind⟩
  rcases of_answer shown with ⟨-, rfl⟩
  rcases Binds.of_bind behind with ⟨answered, second, performed, rest⟩
  rcases of_perform performed with ⟨table, done, rfl⟩
  refine ⟨table, answered, done, ?_⟩
  cases answered with
  | ok known =>
    cases rest
    exact ⟨[], by simp, .inl ⟨known, rfl, rfl, rfl⟩⟩
  | error refusal =>
    rcases Binds.of_bind rest with ⟨_, last, reported, ended⟩
    rcases of_reportRefusal reported with ⟨made, code, rfl⟩
    cases ended
    exact ⟨[made], rfl, .inr ⟨refusal, rfl, rfl, by simp [code]⟩⟩

/-- A simple name is declared in the scope at hand. -/
theorem of_declareNamed_simple {name type : Encoding} {kind : SymbolKind} {node : Tree.NodeId}
    {span : Option Span} {declared : Option SymbolId × ScopeId}
    (simple : name.isQualified = false)
    (ran : declareNamed name kind type node span surroundings state = .ok declared after) :
    declare surroundings.current (.ofDeclaration name kind type surroundings.current node span)
      surroundings state = .ok declared.1 after := by
  rcases Binds.of_bind ran with ⟨here, _, isHere, rest⟩
  cases isHere
  rw [simple, if_neg Bool.false_ne_true] at rest
  rcases Binds.of_bind rest with ⟨id, last, done, ended⟩
  cases ended
  exact done

end Ended

/-! ## Reporting and declaring -/

theorem quiet_pure (value : α) : Quiet (pure value : Bind α) := .pure fun _ => trivial

theorem quiet_answer (outcome : Outcome α) : Quiet (answer outcome) := by
  cases outcome with
  | ok value => exact quiet_pure value
  | error fault => exact fun surroundings state => ⟨fault, rfl⟩

theorem quiet_current : Quiet current := .after .read fun _ => quiet_pure _

theorem quiet_ask (question : Table → Outcome α) : Quiet (ask question) :=
  .after .get fun _ => quiet_answer _

theorem quiet_site : Quiet site := .after .get fun _ => .after quiet_current fun _ => quiet_pure _

theorem quiet_change (edit : Table → Table) : Quiet (change edit) := .modify fun _ => rfl

theorem quiet_perform (operation : Table → Outcome (Table × α)) : Quiet (perform operation) :=
  .after (quiet_ask operation) fun _ => .after (quiet_change _) fun _ => quiet_pure _

theorem quiet_takeHeader : Quiet takeHeader :=
  .after .get fun _ => .after (.modify fun _ => rfl) fun _ => quiet_pure _

theorem quiet_createScope (region : Region) (outer : ScopeId) (node : Tree.NodeId) :
    Quiet (createScope region outer node) :=
  .after .get fun _ => .after (quiet_change _) fun _ => quiet_answer _

theorem quiet_scopeFor (node : Tree.NodeId) (outer : ScopeId) (region : Region) :
    Quiet (scopeFor node outer region) := by
  refine .after .get fun state => ?_
  split
  · exact quiet_pure _
  · exact quiet_createScope _ _ _

theorem quiet_setDefines (symbol : SymbolId) (scope : ScopeId) : Quiet (setDefines symbol scope) :=
  quiet_change _

theorem quiet_diagnostic (span : Option Span) (message : Message) (arguments : List String) :
    Quiet (diagnostic span message arguments) :=
  .after .read fun _ => quiet_pure _

theorem quiet_record (made : Diagnostic) : Quiet (record made) := .modify fun _ => rfl

theorem quiet_report (span : Option Span) (message : Message) (arguments : List String) :
    Quiet (report span message arguments) :=
  .after (quiet_diagnostic _ _ _) fun _ => quiet_record _

theorem quiet_reportLookup (error : LookupError) (span : Option Span) :
    Quiet (reportLookup error span) :=
  .after .read fun _ => .after (quiet_ask _) fun _ => quiet_record _

theorem quiet_reportRefusal (refusal : Table.Refusal) (name : String) (span : Option Span) :
    Quiet (reportRefusal refusal name span) :=
  .after (quiet_ask _) fun _ => .after (quiet_diagnostic _ _ _) fun _ =>
    .after (quiet_diagnostic _ _ _) fun _ => quiet_record _

theorem quiet_declare (scope : ScopeId) (symbol : Symbol) : Quiet (declare scope symbol) := by
  refine .after (quiet_answer _) fun name => .after (quiet_perform _) fun declared => ?_
  split
  · exact quiet_pure _
  · exact .after (quiet_reportRefusal _ _ _) fun _ => quiet_pure _

theorem quiet_declareQuietly (scope : ScopeId) (symbol : Symbol) :
    Quiet (declareQuietly scope symbol) :=
  .discard (quiet_declare scope symbol)

theorem quiet_declarationTarget (name : Encoding) (span : Option Span) :
    Quiet (declarationTarget name span) := by
  refine .after (quiet_answer _) fun components => ?_
  split
  · exact quiet_pure _
  · refine .after quiet_current fun scope => .after (quiet_ask _) fun found => ?_
    split
    · exact quiet_pure _
    · exact quiet_pure _
    · exact .after (quiet_reportLookup _ _) fun _ => quiet_pure _

theorem quiet_declareMember (name : Encoding) (scope : ScopeId) (last : Encoding) (kind : SymbolKind)
    (type : Encoding) (node : Tree.NodeId) (span : Option Span) :
    Quiet (declareMember name scope last kind type node span) := by
  refine .after (quiet_answer _) fun key => .after (quiet_ask _) fun found =>
    .after (quiet_answer _) fun text => ?_
  split
  · exact .after (quiet_report _ _ _) fun _ => quiet_pure _
  · refine .after (quiet_ask _) fun kind => .after .get fun before =>
      .after (quiet_declare _ _) fun id => .after .get fun after => ?_
    dsimp only
    split
    · exact .after (quiet_report _ _ _) fun _ => quiet_pure _
    · exact quiet_pure _

theorem quiet_declareNamed (name : Encoding) (kind : SymbolKind) (type : Encoding)
    (node : Tree.NodeId) (span : Option Span) : Quiet (declareNamed name kind type node span) := by
  refine .after quiet_current fun scope => ?_
  split
  · refine .after (quiet_declarationTarget _ _) fun target => ?_
    split
    · exact quiet_pure _
    · exact .after (quiet_declareMember _ _ _ _ _ _ _) fun _ => quiet_pure _
  · exact .after (quiet_declare _ _) fun _ => quiet_pure _

/-- What is noted on a list is known from then on. -/
theorem annotate_binds (node : Node) (scope : ScopeId) (list : node.isCell = true) :
    Binds (annotate node scope) fun _ annotations => annotations.Has node := by
  intro surroundings state
  unfold annotate
  rw [if_pos list]
  refine ⟨state.annotations.within_cons (node.id, scope), fun later within => ?_⟩
  exact within node (state.annotations.has_cons_self list scope)

theorem quiet_annotate (node : Node) (scope : ScopeId) : Quiet (annotate node scope) := by
  by_cases list : node.isCell = true
  · exact (annotate_binds node scope list).quiet
  · unfold annotate
    rw [if_neg list]
    exact quiet_pure _

end Binding
end CppNames
