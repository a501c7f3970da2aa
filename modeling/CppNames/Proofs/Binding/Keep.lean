import CppNames.Proofs.Binding.Formed
import CppNames.Proofs.Binding.Step
import CppNames.Proofs.Diagnostic.Log
import CppNames.Proofs.Tree.Part

namespace CppNames
namespace Binding

/-!
# Steps that keep tables in form

`Keeps` says of a step of binding, begun in a given state, that it leaves the table in form
wherever it ends, and what holds of its answer and of the state behind it.  Steps that only look
at the table or report are `Reads`; nothing has to be shown about the table for them.

Every report is in the file that is bound.  Scopes are noted on nodes of the tree only where they
are noted in the table as well; for this it is enough to know of a step whether it may note any.

A step may depend on what an earlier one has found out about an index.  Since tables only grow,
such facts are carried along by `Evolves`.
-/

open Table

/-! ## Looking -/

/-- A state that is left alone, except for reports in a file. -/
structure Reported (file : String) (before after : State) : Prop where
  table : after.table = before.table
  annotations : after.annotations = before.annotations
  header : after.header = before.header
  log : Log.AddsIn file before.log after.log

theorem Reported.refl (file : String) (state : State) : Reported file state state :=
  ⟨rfl, rfl, rfl, .refl _⟩

theorem Reported.trans {file : String} {before middle after : State}
    (front : Reported file before middle) (back : Reported file middle after) :
    Reported file before after where
  table := back.table.trans front.table
  annotations := back.annotations.trans front.annotations
  header := back.header.trans front.header
  log := front.log.trans back.log

/-- How a step ends that only reports. -/
def LeavesAlone {α : Type} (file : String) (state : State) (post : α → Prop) :
    EStateM.Result PassError State α → Prop
  | .ok value after => Reported file state after ∧ post value
  | .error _ after => after.table = state.table ∧ after.header = state.header

/-- A step that leaves everything but the log alone, with a condition on its answer. -/
def Reads {α : Type} (step : Bind α) (post : Surroundings → Table → α → Prop) : Prop :=
  ∀ surroundings state,
    LeavesAlone surroundings.file state (post surroundings state.table) (step surroundings state)

/-- A step that leaves everything but the log alone. -/
abbrev Looks {α : Type} (step : Bind α) : Prop := Reads step fun _ _ _ => True

namespace Reads

variable {α β : Type} {step : Bind α} {post : Surroundings → Table → α → Prop}

theorem weaken {weaker : Surroundings → Table → α → Prop} (reads : Reads step post)
    (implies : ∀ surroundings table value, post surroundings table value →
      weaker surroundings table value) : Reads step weaker := by
  intro surroundings state
  have leaves := reads surroundings state
  cases result : step surroundings state with
  | error error after => rw [result] at leaves; exact leaves
  | ok value after =>
    rw [result] at leaves
    exact ⟨leaves.1, implies surroundings state.table value leaves.2⟩

theorem looks (reads : Reads step post) : Looks step := reads.weaken fun _ _ _ _ => trivial

theorem pure {value : α} (holds : ∀ surroundings table, post surroundings table value) :
    Reads (Pure.pure value : Bind α) post :=
  fun surroundings state => ⟨.refl _ state, holds surroundings state.table⟩

theorem bind {next : α → Bind β} {final : Surroundings → Table → β → Prop}
    (first : Reads step post) (rest : ∀ value, Reads (next value) fun surroundings table result =>
      post surroundings table value → final surroundings table result) :
    Reads (step >>= next) final := by
  intro surroundings state
  have front := first surroundings state
  cases result : step surroundings state with
  | error error after =>
    rw [Binds.bind_of_error result]
    rw [result] at front
    exact front
  | ok value middle =>
    rw [Binds.bind_of_ok result]
    rw [result] at front
    have back := rest value surroundings middle
    cases resultBehind : next value surroundings middle with
    | error error after =>
      rw [resultBehind] at back
      exact ⟨back.1.trans front.1.table, back.2.trans front.1.header⟩
    | ok last after =>
      rw [resultBehind] at back
      refine ⟨front.1.trans back.1, ?_⟩
      rw [front.1.table] at back
      exact back.2 front.2

/-- One step after another of which nothing is needed. -/
theorem after {next : α → Bind β} {final : Surroundings → Table → β → Prop} (first : Looks step)
    (rest : ∀ value, Reads (next value) final) : Reads (step >>= next) final := by
  refine first.bind fun value surroundings state => ?_
  have back := rest value surroundings state
  cases result : next value surroundings state with
  | error error after => rw [result] at back; exact back
  | ok last after =>
    rw [result] at back
    exact ⟨back.1, fun _ => back.2⟩

end Reads

variable {α β : Type}

theorem looks_pure (value : α) : Looks (pure value : Bind α) := .pure fun _ _ => trivial

theorem reads_answer (outcome : Outcome α) : Reads (answer outcome) fun _ _ value =>
    outcome = .ok value := by
  cases outcome with
  | ok value => exact .pure fun _ _ => rfl
  | error fault => exact fun surroundings state => ⟨rfl, rfl⟩

theorem looks_answer (outcome : Outcome α) : Looks (answer outcome) := (reads_answer outcome).looks

theorem reads_read : Reads (MonadReader.read : Bind Surroundings) fun surroundings _ here =>
    here = surroundings :=
  fun _ state => ⟨.refl _ state, rfl⟩

theorem looks_read : Looks (MonadReader.read : Bind Surroundings) := reads_read.looks

theorem reads_get : Reads (MonadState.get : Bind State) fun _ table state => state.table = table :=
  fun _ state => ⟨.refl _ state, rfl⟩

theorem reads_current : Reads current fun surroundings _ scope => scope = surroundings.current :=
  fun _ state => ⟨.refl _ state, rfl⟩

theorem reads_ask (question : Table → Outcome α) :
    Reads (ask question) fun _ table value => question table = .ok value := by
  refine reads_get.bind fun state => (reads_answer _).weaken ?_
  intro surroundings table value ran same
  exact same ▸ ran

theorem looks_ask (question : Table → Outcome α) : Looks (ask question) := (reads_ask question).looks

theorem reads_site : Reads site fun surroundings table site =>
    site = ⟨table, surroundings.current⟩ :=
  fun _ state => ⟨.refl _ state, rfl⟩

/-- A malformed construct gives no answer. -/
theorem reads_malformed (node : Node) (construct : Construct) (expected : Expectation) :
    Reads (malformed node construct expected : Bind α) fun _ _ _ => False := by
  refine .after (looks_answer _) fun error => ?_
  exact fun surroundings state => ⟨rfl, rfl⟩

/-- A step that makes a problem in the file that is bound. -/
abbrev Makes (step : Bind Diagnostic) : Prop :=
  Reads step fun surroundings _ made => made.IsIn surroundings.file

/-- Whatever a step makes is recorded. -/
theorem Makes.record {step : Bind Diagnostic} (makes : Makes step) :
    Looks (step >>= Binding.record) := by
  intro surroundings state
  have front := makes surroundings state
  cases result : step surroundings state with
  | error error after =>
    rw [Binds.bind_of_error result]
    rw [result] at front
    exact front
  | ok made after =>
    rw [Binds.bind_of_ok result]
    rw [result] at front
    refine ⟨front.1.trans ⟨rfl, rfl, rfl, ?_⟩, trivial⟩
    exact .single after.log front.2

theorem makes_diagnostic (span : Option Span) (message : Message) (arguments : List String) :
    Makes (diagnostic span message arguments) :=
  fun _ state => ⟨.refl _ state, Diagnostic.isIn_place message arguments span⟩

theorem looks_report (span : Option Span) (message : Message) (arguments : List String) :
    Looks (report span message arguments) :=
  (makes_diagnostic span message arguments).record

theorem looks_reportLookup (error : LookupError) (span : Option Span) :
    Looks (reportLookup error span) := by
  have makes : Makes (do ask (error.diagnostic · (← read).file span)) := by
    refine reads_read.bind fun here => (reads_ask _).weaken ?_
    rintro surroundings table made done rfl
    exact LookupError.isIn_of_diagnostic done
  have looks := makes.record
  rwa [bind_assoc] at looks

theorem looks_reportRefusal (refusal : Table.Refusal) (name : String) (span : Option Span) :
    Looks (reportRefusal refusal name span) := by
  have makes : ∀ message : Message, Makes (do
      let previous ← ask (·.symbol refusal.previous)
      let note ← diagnostic previous.span .previousDeclaration [name]
      let made ← diagnostic span message [name]
      return made.withRelated note) := by
    intro message
    refine .after (looks_ask _) fun previous => (makes_diagnostic _ _ _).bind fun note =>
      (makes_diagnostic _ _ _).bind fun made => .pure fun surroundings table inFile noted => ?_
    exact inFile.withRelated noted.1
  have looks := (makes (if refusal.redefinition then .redefinition else .redeclaration)).record
  simp only [bind_assoc, pure_bind] at looks
  exact looks

/-! ## Changing -/

/-- Whether nodes are bound for the first time, and outside functions. -/
def Setting.Outermost (setting : Setting) : Prop := setting.first = true ∧ ¬ setting.inside

/-- A table in form, and a place in it where declarations may go. -/
structure Ready (setting : Setting) (surroundings : Surroundings) (table : Table)
    (pending : Option ScopeId) : Prop where
  formed : Formed setting pending table
  current : table.Open surroundings.current
  outermost : setting.Outermost → table.HasMembers surroundings.current

theorem Ready.grows {setting : Setting} {surroundings : Surroundings} {before after : Table}
    {pending left : Option ScopeId} (ready : Ready setting surroundings before pending)
    (formed : Formed setting left after) (grows : before.Grows after) :
    Ready setting surroundings after left where
  formed := formed
  current := grows.isOpen ready.current
  outermost out := (ready.outermost out).grows grows

/-- What a step adds to the notes on the tree and to the log.  Scopes are noted on the nodes only
for which they may be noted in the table. -/
structure Adds (setting : Setting) (file : String) (before after : State) : Prop where
  annotations : ∃ added, after.annotations = added ++ before.annotations ∧
    ∀ note ∈ added, note.1 ∈ setting.noted
  log : Log.AddsIn file before.log after.log

theorem Adds.of_same {setting : Setting} {file : String} {before after : State}
    (same : after.annotations = before.annotations) (log : Log.AddsIn file before.log after.log) :
    Adds setting file before after :=
  ⟨⟨[], same, fun _ member => absurd member List.not_mem_nil⟩, log⟩

theorem Adds.refl (setting : Setting) (file : String) (state : State) :
    Adds setting file state state := .of_same rfl (.refl _)

/-- Where no scopes may be noted, none are. -/
theorem Adds.same {setting : Setting} {file : String} {before after : State}
    (adds : Adds setting file before after) (nothing : ¬ setting.noted.Nonempty) :
    after.annotations = before.annotations := by
  rcases adds.annotations with ⟨added, same, allowed⟩
  cases added with
  | nil => exact same
  | cons note rest => exact absurd ⟨note.1, allowed note (List.mem_cons_self ..)⟩ nothing

theorem Adds.trans {setting : Setting} {file : String} {before middle after : State}
    (front : Adds setting file before middle) (back : Adds setting file middle after) :
    Adds setting file before after where
  annotations := by
    rcases front.annotations with ⟨first, sameFirst, allowedFirst⟩
    rcases back.annotations with ⟨second, sameSecond, allowedSecond⟩
    refine ⟨second ++ first, ?_, List.forall_mem_append.mpr ⟨allowedSecond, allowedFirst⟩⟩
    rw [sameSecond, sameFirst, List.append_assoc]
  log := front.log.trans back.log

/-- How a step ends that keeps the table in form.  A header that is pending may be taken. -/
def Ends {α : Type} (setting : Setting) (surroundings : Surroundings) (state : State)
    (post : α → Table → Option ScopeId → Prop) : EStateM.Result PassError State α → Prop
  | .ok value after => Ready setting surroundings after.table after.header ∧
      Evolves setting state.table after.table ∧ (after.header = none ∨ after.header = state.header) ∧
      Adds setting surroundings.file state after ∧ post value after.table after.header
  | .error _ after => ∃ pending, Formed setting pending after.table

/-- A step that, begun with a given table and a given pending header, keeps the table in form,
and whose answer, table and pending header then satisfy a condition. -/
def Keeps {α : Type} (setting : Setting) (surroundings : Surroundings) (table : Table)
    (pending : Option ScopeId) (step : Bind α) (post : α → Table → Option ScopeId → Prop) : Prop :=
  ∀ state : State, state.table = table → state.header = pending →
    Ends setting surroundings state post (step surroundings state)

variable {setting : Setting} {surroundings : Surroundings} {table : Table}
  {pending : Option ScopeId} {step : Bind α} {post : α → Table → Option ScopeId → Prop}

namespace Keeps

theorem weaken {weaker : α → Table → Option ScopeId → Prop}
    (keeps : Keeps setting surroundings table pending step post)
    (implies : ∀ value after next, post value after next → weaker value after next) :
    Keeps setting surroundings table pending step weaker := by
  intro state sameTable sameHeader
  have ends := keeps state sameTable sameHeader
  cases result : step surroundings state with
  | error error after => rw [result] at ends; exact ends
  | ok value after =>
    rw [result] at ends
    rcases ends with ⟨ready, evolves, header, adds, holds⟩
    exact ⟨ready, evolves, header, adds, implies value _ _ holds⟩

theorem pure (ready : Ready setting surroundings table pending) {value : α}
    (holds : post value table pending) :
    Keeps setting surroundings table pending (Pure.pure value) post := by
  rintro state rfl rfl
  exact ⟨ready, .refl _, .inr rfl, .refl _ _ state, holds⟩

/-- One step after another. -/
theorem bind {next : α → Bind β} {final : β → Table → Option ScopeId → Prop}
    (first : Keeps setting surroundings table pending step post)
    (rest : ∀ value after left, Ready setting surroundings after left →
      Evolves setting table after → (left = none ∨ left = pending) → post value after left →
      Keeps setting surroundings after left (next value) final) :
    Keeps setting surroundings table pending (step >>= next) final := by
  rintro state rfl rfl
  have front := first state rfl rfl
  cases result : step surroundings state with
  | error error after =>
    rw [Binds.bind_of_error result]
    rw [result] at front
    exact front
  | ok value middle =>
    rw [result] at front
    rcases front with ⟨ready, evolves, header, adds, holds⟩
    have back := rest value _ _ ready evolves header holds middle rfl rfl
    rw [Binds.bind_of_ok result]
    cases resultBehind : next value surroundings middle with
    | error error after => rw [resultBehind] at back; exact back
    | ok last after =>
      rw [resultBehind] at back
      rcases back with ⟨ready, further, headerBehind, addsBehind, holds⟩
      refine ⟨ready, evolves.trans further, ?_, adds.trans addsBehind, holds⟩
      rcases headerBehind with none | same
      · exact .inl none
      · rw [same]
        exact header

/-- A step that only looks. -/
theorem reads {looked : Surroundings → Table → α → Prop}
    (ready : Ready setting surroundings table pending) (first : Reads step looked) :
    Keeps setting surroundings table pending step fun value after left =>
      table = after ∧ pending = left ∧ looked surroundings table value := by
  rintro state rfl rfl
  have leaves := first surroundings state
  cases result : step surroundings state with
  | error error after =>
    rw [result] at leaves
    exact ⟨state.header, leaves.1 ▸ ready.formed⟩
  | ok value after =>
    rw [result] at leaves
    rcases leaves with ⟨reported, holds⟩
    have adds : Adds setting surroundings.file state after :=
      .of_same reported.annotations reported.log
    unfold Ends
    dsimp only
    rw [reported.table, reported.header]
    exact ⟨ready, .refl _, .inr rfl, adds, rfl, rfl, holds⟩

/-- What comes behind a step that only looks. -/
theorem behind {looked : Surroundings → Table → α → Prop} {next : α → Bind β}
    {final : β → Table → Option ScopeId → Prop} (ready : Ready setting surroundings table pending)
    (first : Reads step looked)
    (rest : ∀ value, looked surroundings table value →
      Keeps setting surroundings table pending (next value) final) :
    Keeps setting surroundings table pending (step >>= next) final := by
  refine (reads ready first).bind ?_
  rintro value after left _ _ _ ⟨rfl, rfl, holds⟩
  exact rest value holds

theorem looks {final : α → Table → Option ScopeId → Prop}
    (ready : Ready setting surroundings table pending) (first : Looks step)
    (holds : ∀ value, final value table pending) :
    Keeps setting surroundings table pending step final := by
  refine (reads ready first).weaken ?_
  rintro value after left ⟨rfl, rfl, _⟩
  exact holds value

theorem map {function : α → β} {final : β → Table → Option ScopeId → Prop}
    (keeps : Keeps setting surroundings table pending step fun value => final (function value)) :
    Keeps setting surroundings table pending (function <$> step) final := by
  intro state sameTable sameHeader
  have ends := keeps state sameTable sameHeader
  change Ends _ _ _ final (EStateM.map function (step surroundings) state)
  unfold EStateM.map
  cases result : step surroundings state with
  | error error after => rw [result] at ends; exact ends
  | ok value after => rw [result] at ends; exact ends

theorem discard {final : PUnit → Table → Option ScopeId → Prop}
    (keeps : Keeps setting surroundings table pending step post)
    (implies : ∀ value after left, post value after left → final .unit after left) :
    Keeps setting surroundings table pending (Functor.discard step) final := by
  have mapped : Keeps setting surroundings table pending ((fun _ => PUnit.unit) <$> step) final :=
    .map (keeps.weaken implies)
  exact mapped

/-- A step that is done elsewhere. -/
theorem inScope {scope : ScopeId} (ready : Ready setting surroundings table pending)
    (keeps : Keeps setting { surroundings with current := scope } table pending step post) :
    Keeps setting surroundings table pending (Binding.inScope scope step) post := by
  rintro state rfl rfl
  have ends := keeps state rfl rfl
  change Ends _ _ _ post (step { surroundings with current := scope } state)
  cases result : step { surroundings with current := scope } state with
  | error error after => rw [result] at ends; exact ends
  | ok value after =>
    rw [result] at ends
    rcases ends with ⟨there, evolves, header, adds, holds⟩
    exact ⟨ready.grows there.formed evolves.grows, evolves, header, adds, holds⟩

end Keeps

theorem Ready.within (ready : Ready setting surroundings table pending) {scope : ScopeId}
    (isOpen : table.Open scope) (outermost : setting.Outermost → table.HasMembers scope) :
    Ready setting { surroundings with current := scope } table pending :=
  ⟨ready.formed, isOpen, outermost⟩

theorem Ready.withMembers (ready : Ready setting surroundings table pending) {scope : ScopeId}
    (has : table.HasMembers scope) :
    Ready setting { surroundings with current := scope } table pending :=
  ready.within has.isOpen fun _ => has

/-- An operation on the table that keeps it in form. -/
theorem keeps_change (ready : Ready setting surroundings table pending) {edit : Table → Table}
    (does : Formed setting pending (edit table) ∧ Evolves setting table (edit table)) :
    Keeps setting surroundings table pending (change edit) fun _ after left =>
      edit table = after ∧ pending = left := by
  rintro state rfl rfl
  exact ⟨ready.grows does.1 does.2.grows, does.2, .inr rfl, .of_same rfl (.refl _), rfl, rfl⟩

/-- A scope is noted on a node of the tree. -/
theorem keeps_annotate (ready : Ready setting surroundings table pending) {node : Node}
    {scope : ScopeId} (allowed : node.id ∈ setting.noted) :
    Keeps setting surroundings table pending (annotate node scope) fun _ after left =>
      table = after ∧ pending = left := by
  unfold annotate
  split
  · rintro state rfl rfl
    refine ⟨ready, .refl _, .inr rfl, ⟨⟨[(node.id, scope)], rfl, ?_⟩, .refl _⟩, rfl, rfl⟩
    intro note member
    rw [List.mem_singleton.mp member]
    exact allowed
  · exact .pure ready ⟨rfl, rfl⟩

/-- What comes behind a note on a node. -/
theorem Keeps.annotating {node : Node} {scope : ScopeId} {next : PUnit → Bind β}
    {final : β → Table → Option ScopeId → Prop} (ready : Ready setting surroundings table pending)
    (allowed : node.id ∈ setting.noted)
    (rest : Keeps setting surroundings table pending (next .unit) final) :
    Keeps setting surroundings table pending (annotate node scope >>= next) final := by
  refine (keeps_annotate ready allowed).bind ?_
  rintro _ after left _ _ _ ⟨rfl, rfl⟩
  exact rest

theorem keeps_perform (ready : Ready setting surroundings table pending)
    {operation : Table → Outcome (Table × α)}
    (does : ∀ after value, operation table = .ok (after, value) →
      Formed setting pending after ∧ Evolves setting table after) :
    Keeps setting surroundings table pending (perform operation) fun value after left =>
      operation table = .ok (after, value) ∧ pending = left := by
  refine .behind ready (reads_ask operation) fun answer done => ?_
  rcases answer with ⟨after, value⟩
  refine (keeps_change ready (does after value done)).bind ?_
  rintro _ last left ready _ _ ⟨rfl, rfl⟩
  refine .pure ready ?_
  exact ⟨done, rfl⟩

/-- Some steps, one for each of some items, and what they leave true of the pending header. -/
theorem keeps_forM {items : List α} {step : α → Bind PUnit} {stays : Option ScopeId → Prop}
    (ready : Ready setting surroundings table pending) (held : stays pending)
    (all : ∀ item ∈ items, ∀ {later left}, table.Grows later → stays left →
      Ready setting surroundings later left →
      Keeps setting surroundings later left (step item) fun _ _ next => stays next) :
    Keeps setting surroundings table pending (items.forM step) fun _ _ left => stays left := by
  induction items generalizing table pending with
  | nil => exact .pure ready held
  | cons first rest ih =>
    refine .bind (all first (List.mem_cons_self ..) (.refl table) held ready) ?_
    intro _ after left ready evolves _ held
    exact ih ready held fun item member later left grows =>
      all item (List.mem_cons_of_mem _ member) (evolves.grows.trans grows)

/-- Some steps with a result that is passed on. -/
theorem keeps_foldlM {items : List α} {step : β → α → Bind β}
    (ready : Ready setting surroundings table pending)
    (all : ∀ item ∈ items, ∀ {value later left}, Ready setting surroundings later left →
      Keeps setting surroundings later left (step value item) fun _ _ _ => True) (initial : β) :
    Keeps setting surroundings table pending (items.foldlM step initial) fun _ _ _ => True := by
  induction items generalizing table pending initial with
  | nil => exact .pure ready trivial
  | cons first rest ih =>
    rw [List.foldlM_cons]
    refine .bind (all first (List.mem_cons_self ..) ready) ?_
    intro value after left ready _ _ _
    exact ih ready (fun item member => all item (List.mem_cons_of_mem _ member)) value

/-! ## Settings inside settings -/

/-- A setting that allows less. -/
structure Narrows (small large : Setting) : Prop where
  content : small.content = large.content
  first : small.first = large.first
  held : ∀ header ∈ large.held, header ∈ small.held
  noted : small.noted ⊆ large.noted
  declaring : small.declaring ⊆ large.declaring
  aliasing : small.aliasing → large.aliasing
  inner : small.inner = large.inner
  inside : small.inside → large.inside
  settled : large.settled ⊆ small.settled

/-- The setting in which no scopes are noted for template headers. -/
def Setting.plain (setting : Setting) : Setting :=
  { setting with noted := {label | label ∈ setting.noted ∧ setting.content label ≠ .templateDecl} }

/-- The setting in which only some nodes are bound. -/
def Setting.only (setting : Setting) (parts : List Node) : Setting :=
  { setting with
    noted := {label | label ∈ parts.map Tree.id}
    declaring := {label | label ∈ parts.map Tree.id} }

/-- The setting in which a header, if there is one, may still be moved. -/
def Setting.hold (setting : Setting) (header : Option ScopeId) : Setting :=
  { setting with held := header.toList ++ setting.held }

/-- The setting in which a header, if there is one, stays where it is. -/
def Setting.settle (setting : Setting) (header : Option ScopeId) : Setting :=
  { setting with settled := {scope | header = some scope ∨ scope ∈ setting.settled} }

/-- The setting inside a function. -/
def Setting.inward (setting : Setting) : Setting := { setting with inside := True }

variable {small large : Setting} {before after : Table}

theorem narrows_plain (setting : Setting) : Narrows setting.plain setting where
  content := rfl
  first := rfl
  held _ member := member
  noted _ member := member.1
  declaring _ member := member
  aliasing := id
  inner := rfl
  inside := id
  settled _ member := member

theorem narrows_hold (setting : Setting) (header : Option ScopeId) :
    Narrows (setting.hold header) setting where
  content := rfl
  first := rfl
  held _ member := List.mem_append_right _ member
  noted _ member := member
  declaring _ member := member
  aliasing := id
  inner := rfl
  inside := id
  settled _ member := member

theorem narrows_settle (setting : Setting) (header : Option ScopeId) :
    Narrows (setting.settle header) setting where
  content := rfl
  first := rfl
  held _ member := member
  noted _ member := member
  declaring _ member := member
  aliasing := id
  inner := rfl
  inside := id
  settled _ member := .inr member

theorem Narrows.trans {least : Setting} (front : Narrows least small) (back : Narrows small large) :
    Narrows least large where
  content := front.content.trans back.content
  first := front.first.trans back.first
  held header member := front.held header (back.held header member)
  noted _ member := back.noted (front.noted member)
  declaring _ member := back.declaring (front.declaring member)
  aliasing aliases := back.aliasing (front.aliasing aliases)
  inner := front.inner.trans back.inner
  inside stands := back.inside (front.inside stands)
  settled _ member := front.settled (back.settled member)

theorem Narrows.nonempty (narrows : Narrows small large) (some : small.noted.Nonempty) :
    large.noted.Nonempty := some.imp fun _ member => narrows.noted member

theorem Formed.widen (narrows : Narrows small large) (formed : Formed small pending table) :
    Formed large pending table where
  consistent := formed.consistent
  root := formed.root
  notes note member := narrows.content ▸ formed.notes note member
  older := formed.older
  headers id declaration has := narrows.content ▸ formed.headers id declaration has
  headed := formed.headed
  budding first := by
    have budding := formed.budding (narrows.first.trans first)
    constructor
    · exact budding.ranked
    · exact fun header member => budding.isHeader header (narrows.held header member)
    · exact fun header which => budding.childless header (which.imp_left (narrows.held header))
    · exact fun header member => budding.apart header (narrows.held header member)
  housed first := by
    have housed := formed.housed (narrows.first.trans first)
    rw [narrows.inner] at housed
    constructor
    · exact housed.members
    · exact fun header which => housed.headers header (which.imp_left (narrows.settled ·))
    · exact fun header member => housed.apart header (narrows.settled member)

theorem Evolves.widen (narrows : Narrows small large) (evolves : Evolves small before after) :
    Evolves large before after where
  grows := evolves.grows
  scopes id there := (evolves.scopes id there).imp_right narrows.nonempty
  notes label other := evolves.notes label fun member => other (narrows.noted member)
  declared id := by
    rcases evolves.declared id with ⟨added, same, allowed⟩
    exact ⟨added, same, fun label member => narrows.declaring (allowed label member)⟩
  entered := evolves.entered
  shown scope name id shows := (evolves.shown scope name id shows).imp_right
    (.imp_right narrows.aliasing)
  ways first := (evolves.ways (narrows.first.trans first)).fewer narrows.settled

theorem Adds.widen {file : String} {early late : State} (narrows : Narrows small large)
    (adds : Adds small file early late) : Adds large file early late where
  annotations := by
    rcases adds.annotations with ⟨added, same, allowed⟩
    exact ⟨added, same, fun note member => narrows.noted (allowed note member)⟩
  log := adds.log

theorem Ready.widen (narrows : Narrows small large)
    (ready : Ready small surroundings table pending) :
    Ready large surroundings table pending where
  formed := ready.formed.widen narrows
  current := ready.current
  outermost out := ready.outermost
    ⟨narrows.first.trans out.1, fun stands => out.2 (narrows.inside stands)⟩

theorem Keeps.widen (narrows : Narrows small large)
    (keeps : Keeps small surroundings table pending step post) :
    Keeps large surroundings table pending step post := by
  intro state sameTable sameHeader
  have ends := keeps state sameTable sameHeader
  cases result : step surroundings state with
  | error error after =>
    rw [result] at ends
    rcases ends with ⟨pending, formed⟩
    exact ⟨pending, formed.widen narrows⟩
  | ok value after =>
    rw [result] at ends
    rcases ends with ⟨ready, evolves, header, adds, holds⟩
    exact ⟨ready.widen narrows, evolves.widen narrows, header, adds.widen narrows, holds⟩

/-- One step after another, where the first one is allowed less. -/
theorem Keeps.narrowly {next : α → Bind β} {final : β → Table → Option ScopeId → Prop}
    (narrows : Narrows small large) (first : Keeps small surroundings table pending step post)
    (rest : ∀ value after left, Ready small surroundings after left →
      Ready large surroundings after left → Evolves small table after →
      (left = none ∨ left = pending) → post value after left →
      Keeps large surroundings after left (next value) final) :
    Keeps large surroundings table pending (step >>= next) final := by
  have recorded : Keeps small surroundings table pending step fun value after left =>
      Ready small surroundings after left ∧ Evolves small table after ∧
        (left = none ∨ left = pending) ∧ post value after left := by
    rintro state rfl rfl
    have ends := first state rfl rfl
    cases result : step surroundings state with
    | error error after => rw [result] at ends; exact ends
    | ok value after =>
      rw [result] at ends
      rcases ends with ⟨ready, evolves, header, adds, holds⟩
      exact ⟨ready, evolves, header, adds, ready, evolves, header, holds⟩
  exact (recorded.widen narrows).bind fun value after left ready _ _ known =>
    rest value after left known.1 ready known.2.1 known.2.2.1 known.2.2.2

theorem Ready.plain (ready : Ready setting surroundings table pending) :
    Ready setting.plain surroundings table pending where
  formed := ⟨ready.formed.consistent, ready.formed.root, ready.formed.notes, ready.formed.older,
    ready.formed.headers, ready.formed.headed, ready.formed.budding, ready.formed.housed⟩
  current := ready.current
  outermost := ready.outermost

theorem Ready.only (ready : Ready setting surroundings table pending) (parts : List Node) :
    Ready (setting.only parts) surroundings table pending where
  formed := ⟨ready.formed.consistent, ready.formed.root, ready.formed.notes, ready.formed.older,
    ready.formed.headers, ready.formed.headed, ready.formed.budding, ready.formed.housed⟩
  current := ready.current
  outermost := ready.outermost

/-- A header with nothing inside it may be held once it was taken. -/
theorem Ready.hold (ready : Ready setting surroundings table none) {header : Option ScopeId}
    (isHeader : ∀ scope, header = some scope → IsHeader table scope)
    (empty : ∀ scope, header = some scope → setting.first = true → Childless table scope) :
    Ready (setting.hold header) surroundings table none where
  formed := by
    refine ⟨ready.formed.consistent, ready.formed.root, ready.formed.notes, ready.formed.older,
      ready.formed.headers, ready.formed.headed, fun first => ?_, ready.formed.housed⟩
    have budding := ready.formed.budding first
    have either : ∀ {scope}, scope ∈ (setting.hold header).held →
        header = some scope ∨ scope ∈ setting.held := by
      intro scope member
      rcases List.mem_append.mp member with new | old
      · exact .inl (Option.mem_toList.mp new)
      · exact .inr old
    constructor
    · exact budding.ranked
    · intro scope member
      exact (either member).elim (isHeader scope) (budding.isHeader scope)
    · rintro scope (member | next)
      · exact (either member).elim (fun new => empty scope new first)
          fun old => budding.childless scope (.inl old)
      · cases next
    · exact fun _ _ => nofun
  current := ready.current
  outermost := ready.outermost

/-- A header that leads out may be settled once it was taken. -/
theorem Ready.settle (ready : Ready setting surroundings table none) {header : Option ScopeId}
    (leads : ∀ scope, header = some scope → setting.first = true →
      table.LeadsOut setting.inner scope) :
    Ready (setting.settle header) surroundings table none where
  formed := by
    refine ⟨ready.formed.consistent, ready.formed.root, ready.formed.notes, ready.formed.older,
      ready.formed.headers, ready.formed.headed, ready.formed.budding, fun first => ?_⟩
    have housed := ready.formed.housed first
    constructor
    · exact housed.members
    · rintro scope ((new | old) | next)
      · exact leads scope new first
      · exact housed.headers scope (.inl old)
      · cases next
    · exact fun _ _ => nofun
  current := ready.current
  outermost := ready.outermost

/-- Inside a function, one may be in any open scope. -/
theorem Ready.inward (ready : Ready setting surroundings table pending) {scope : ScopeId}
    (isOpen : table.Open scope) :
    Ready setting.inward { surroundings with current := scope } table pending where
  formed := ⟨ready.formed.consistent, ready.formed.root, ready.formed.notes, ready.formed.older,
    ready.formed.headers, ready.formed.headed, ready.formed.budding, ready.formed.housed⟩
  current := isOpen
  outermost out := absurd trivial out.2

/-- A step inside a function. -/
theorem Keeps.inward {scope : ScopeId} (ready : Ready setting surroundings table pending)
    (keeps : Keeps setting.inward { surroundings with current := scope } table pending step post) :
    Keeps setting surroundings table pending (Binding.inScope scope step) post := by
  rintro state rfl rfl
  have ends := keeps state rfl rfl
  change Ends _ _ _ post (step { surroundings with current := scope } state)
  have outward : ∀ {later left}, Formed setting.inward left later → Formed setting left later :=
    fun formed => ⟨formed.consistent, formed.root, formed.notes, formed.older, formed.headers,
      formed.headed, formed.budding, formed.housed⟩
  cases result : step { surroundings with current := scope } state with
  | error error after =>
    rw [result] at ends
    rcases ends with ⟨pending, formed⟩
    exact ⟨pending, outward formed⟩
  | ok value after =>
    rw [result] at ends
    rcases ends with ⟨there, evolves, header, adds, holds⟩
    have evolves : Evolves setting state.table after.table :=
      ⟨evolves.grows, evolves.scopes, evolves.notes, evolves.declared, evolves.entered,
        evolves.shown, evolves.ways⟩
    exact ⟨ready.grows (outward there.formed) evolves.grows, evolves, header,
      ⟨adds.annotations, adds.log⟩, holds⟩

theorem Ready.childless {scope : ScopeId}
    (ready : Ready (setting.hold (some scope)) surroundings table pending)
    (first : setting.first = true) : Childless table scope :=
  (ready.formed.budding first).childless scope (.inl (List.mem_cons_self ..))

/-! ## Nodes that are bound -/

/-- Nodes that a setting allows to be bound.  In a first pass they are all different, and none of
the template declarations among them was met yet. -/
structure Suits (setting : Setting) (table : Table) (parts : List Node) : Prop where
  spells : ∀ part ∈ parts, ∀ construct, part.construct? = some construct →
    setting.content part.id = construct
  noted : ∀ part ∈ parts, part.id ∈ setting.noted
  declaring : ∀ part ∈ parts, part.id ∈ setting.declaring
  aliasing : ∀ part ∈ parts, part.isA .usingDeclaration = true → setting.aliasing
  fresh : setting.first = true → (parts.map Tree.id).Nodup ∧
    ∀ part ∈ parts, part.construct? = some .templateDecl → table.scopeOfNode? part.id = none
  inside : setting.inside → ∀ part ∈ parts, part.id ∈ setting.inner
  inner : ∀ part ∈ parts, ∀ below ∈ part.innerParts, below.id ∈ setting.inner

theorem Suits.sublist {parts some : List Node} (suits : Suits setting table parts)
    (sublist : some.Sublist parts) : Suits setting table some where
  spells part member := suits.spells part (sublist.subset member)
  noted part member := suits.noted part (sublist.subset member)
  declaring part member := suits.declaring part (sublist.subset member)
  aliasing part member := suits.aliasing part (sublist.subset member)
  fresh first := ⟨(suits.fresh first).1.sublist (sublist.map _),
    fun part member => (suits.fresh first).2 part (sublist.subset member)⟩
  inside stands part member := suits.inside stands part (sublist.subset member)
  inner part member := suits.inner part (sublist.subset member)

/-- Nodes go on suiting while no scopes are noted for template headers. -/
theorem Suits.plainly {parts : List Node} (suits : Suits setting before parts)
    (evolves : Evolves setting.plain before after) : Suits setting after parts where
  spells := suits.spells
  noted := suits.noted
  declaring := suits.declaring
  aliasing := suits.aliasing
  fresh first := by
    refine ⟨(suits.fresh first).1, fun part member spells => ?_⟩
    rw [evolves.notes part.id fun noted => noted.2 (suits.spells part member _ spells)]
    exact (suits.fresh first).2 part member spells
  inside := suits.inside
  inner := suits.inner

/-- So do nodes behind others that were bound. -/
theorem Suits.behind {front back : List Node} (suits : Suits setting before (front ++ back))
    (evolves : Evolves (setting.only front) before after) : Suits setting after back where
  spells part member := suits.spells part (List.mem_append_right _ member)
  noted part member := suits.noted part (List.mem_append_right _ member)
  declaring part member := suits.declaring part (List.mem_append_right _ member)
  aliasing part member := suits.aliasing part (List.mem_append_right _ member)
  fresh first := by
    rcases suits.fresh first with ⟨distinct, unmet⟩
    rw [List.map_append] at distinct
    rcases List.nodup_append.mp distinct with ⟨_, rest, apart⟩
    refine ⟨rest, fun part member spells => ?_⟩
    rw [evolves.notes part.id fun noted =>
      apart part.id noted part.id (List.mem_map_of_mem member) rfl]
    exact unmet part (List.mem_append_right _ member) spells
  inside stands part member := suits.inside stands part (List.mem_append_right _ member)
  inner part member := suits.inner part (List.mem_append_right _ member)

/-- A step that notes no scope for a template header leaves the nodes suiting that come next. -/
theorem Keeps.plainly {parts : List Node} {next : α → Bind β}
    {final : β → Table → Option ScopeId → Prop} (suits : Suits setting table parts)
    (first : Keeps setting.plain surroundings table pending step post)
    (rest : ∀ value after left, Ready setting surroundings after left → Suits setting after parts →
      table.Grows after → post value after left →
      Keeps setting surroundings after left (next value) final) :
    Keeps setting surroundings table pending (step >>= next) final :=
  .narrowly (narrows_plain setting) first fun value after left _ ready evolves _ holds =>
    rest value after left ready (suits.plainly evolves) evolves.grows holds

theorem Suits.front {front back : List Node} (suits : Suits setting table (front ++ back)) :
    Suits (setting.only front) table front where
  spells part member := suits.spells part (List.mem_append_left _ member)
  noted part member := List.mem_map_of_mem member
  declaring part member := List.mem_map_of_mem member
  aliasing part member := suits.aliasing part (List.mem_append_left _ member)
  fresh first := by
    rcases suits.fresh first with ⟨distinct, unmet⟩
    rw [List.map_append] at distinct
    exact ⟨(List.nodup_append.mp distinct).1,
      fun part member => unmet part (List.mem_append_left _ member)⟩
  inside stands part member := suits.inside stands part (List.mem_append_left _ member)
  inner part member := suits.inner part (List.mem_append_left _ member)

theorem Suits.narrows {front back : List Node} (suits : Suits setting table (front ++ back)) :
    Narrows (setting.only front) setting where
  content := rfl
  first := rfl
  held _ member := member
  noted label member := by
    rcases List.mem_map.mp member with ⟨part, among, rfl⟩
    exact suits.noted part (List.mem_append_left _ among)
  declaring label member := by
    rcases List.mem_map.mp member with ⟨part, among, rfl⟩
    exact suits.declaring part (List.mem_append_left _ among)
  aliasing := id
  inner := rfl
  inside := id
  settled _ member := member

/-- Some nodes are bound, and then nodes behind them. -/
theorem Keeps.inFront {front back : List Node} {next : α → Bind β}
    {final : β → Table → Option ScopeId → Prop} (suits : Suits setting table (front ++ back))
    (first : Keeps (setting.only front) surroundings table pending step post)
    (rest : ∀ value after left, Ready setting surroundings after left → Suits setting after back →
      table.Grows after → (left = none ∨ left = pending) → post value after left →
      Keeps setting surroundings after left (next value) final) :
    Keeps setting surroundings table pending (step >>= next) final :=
  .narrowly suits.narrows first fun value after left _ ready evolves header holds =>
    rest value after left ready (suits.behind evolves) evolves.grows header holds

theorem Suits.hold {parts : List Node} (suits : Suits setting table parts)
    (header : Option ScopeId) : Suits (setting.hold header) table parts :=
  ⟨suits.spells, suits.noted, suits.declaring, suits.aliasing, suits.fresh, suits.inside,
    suits.inner⟩

theorem Suits.settle {parts : List Node} (suits : Suits setting table parts)
    (header : Option ScopeId) : Suits (setting.settle header) table parts :=
  ⟨suits.spells, suits.noted, suits.declaring, suits.aliasing, suits.fresh, suits.inside,
    suits.inner⟩

/-- Some of the nodes, which stand inside a function. -/
theorem Suits.inward {parts some : List Node} (suits : Suits setting table parts)
    (sublist : some.Sublist parts) (inner : ∀ part ∈ some, part.id ∈ setting.inner) :
    Suits setting.inward table some where
  spells := (suits.sublist sublist).spells
  noted := (suits.sublist sublist).noted
  declaring := (suits.sublist sublist).declaring
  aliasing := (suits.sublist sublist).aliasing
  fresh := (suits.sublist sublist).fresh
  inside _ := inner
  inner := (suits.sublist sublist).inner

end Binding
end CppNames
