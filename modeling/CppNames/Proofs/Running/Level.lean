import CppNames.Proofs.Running.Rule

namespace CppNames
namespace Grammar

/-!
# Productions give their levels back

Whether a production answers or stops, and in whatever state it begins, it leaves the level of
nesting and the depths of template argument lists and blocks as it found them, and it leaves no
template header waiting that was not waiting before.  So counting back one level at the end is
the same as restoring the level that was there.

That the limit is never exceeded is said by a second parser, which stops where a recursive
production begins beyond it: from a state within the limit both parse alike.  The only step that
goes deeper is a nested production or the link of a chain, each by one level where there is room.
-/

variable {α : Type} {terms : Terms} {levels spare : Nat} {state before after : State}
  {production twin : Production α} {owes : α → Nat} {post : α → State → Prop}
  {g h : Productions}

/-! ## Levels given back -/

/-- The same levels as before, and no template header that was not waiting. -/
structure Restored (before after : State) : Prop extends Level before after where
  header : after.underHeader = true → before.underHeader = true

/-- A production restores the levels of a state, however it ends. -/
def Restores (production : Production α) (before : State) : Prop :=
  (∀ value after, production before = .ok value after → Restored before after) ∧
    ∀ stop after, production before = .error stop after → Restored before after

theorem Onward.restored (onward : Onward before after) : Restored before after :=
  ⟨⟨onward.toBeside, onward.depth⟩, onward.header⟩

theorem Runs.restores (runs : Runs terms state production twin owes post) :
    Restores production state := by
  have ended := runs.ended
  refine ⟨fun value after result => ?_, fun stop after result => ?_⟩
  · rw [result] at ended
    exact ended.1.restored
  · rw [result] at ended
    exact ended.1.restored

/-- The terms on which a run may begin in any state. -/
def Terms.lenient : Terms := ⟨fun _ => True, trivial, True⟩

theorem ready_lenient : Ready .lenient levels spare state :=
  .ofLenient (fun _ => trivial) (.inl trivial)

theorem Rule.restores (rule : Rule α) (level : Nat) (state : State) :
    Restores (rule.production (productions level)) state :=
  (rule.runs (lasting_productions .lenient level) (fun _ => trivial) ready_lenient).restores

/-! ## Counting back -/

/-- Runs a production in an entered state, and changes the state back when it ends. -/
def around (enter leave : State → State) (body : Production α) : Production α :=
  within enter (fun _ inside => leave inside) body

/-- Runs a production one level deeper and counts one level back. -/
def nestedCounting (body : Production α) : Production α := do
  descend
  around id (fun s => { s with depth := s.depth - 1 }) body

/-- Runs a production in one more template argument list and counts one back. -/
def inTemplateCounting (body : Production α) : Production α :=
  around (fun s => { s with templateDepth := s.templateDepth + 1 })
    (fun s => { s with templateDepth := s.templateDepth - 1 }) body

/-- Runs a production in one more block and counts one back. -/
def inBlockCounting (body : Production α) : Production α :=
  around (fun s => { s with blockDepth := s.blockDepth + 1 })
    (fun s => { s with blockDepth := s.blockDepth - 1 }) body

/-- Changing the state back is the same as restoring it where both give the same state. -/
theorem within_eq_around {enter leave : State → State} {restore : State → State → State}
    (restores : Restores production (enter state))
    (same : ∀ inside, Restored (enter state) inside → restore state inside = leave inside) :
    within enter restore production state = around enter leave production state := by
  unfold around within
  cases result : production (enter state) with
  | ok value inside => exact congrArg (EStateM.Result.ok value) (same _ (restores.1 _ _ result))
  | error stop inside => exact congrArg (EStateM.Result.error stop) (same _ (restores.2 _ _ result))

theorem inTemplate_eq_counting (restores : ∀ state, Restores production state) (state : State) :
    inTemplate production state = inTemplateCounting production state := by
  refine within_eq_around (restores _) fun inside restored => ?_
  have counted : inside.templateDepth = state.templateDepth + 1 := restored.templateDepth
  rw [restoreTemplateDepth, counted]
  rfl

theorem inBlock_eq_counting (restores : ∀ state, Restores production state) (state : State) :
    inBlock production state = inBlockCounting production state := by
  refine within_eq_around (restores _) fun inside restored => ?_
  have counted : inside.blockDepth = state.blockDepth + 1 := restored.blockDepth
  rw [counted]
  rfl

theorem nested_eq_counting (restores : ∀ state, Restores production state) (state : State) :
    nested production state = nestedCounting production state := by
  unfold nested nestedCounting
  by_cases free : state.depth < state.maxDepth
  · have descends := descend_of_lt free
    have same : around id (fun s => { s with depth := s.depth - 1 }) production state.deeper =
        within id (fun _ inside => restoreDepth state inside) production state.deeper := by
      refine (within_eq_around (restores _) fun inside restored => ?_).symm
      have counted : inside.depth = state.depth + 1 := restored.depth
      rw [restoreDepth, counted]
      rfl
    rw [bind_of_ok descends, same]
    unfold within
    rw [bind_of_ok (show descend (id state) = _ from descends)]
    rfl
  · rcases descend_of_le (Nat.le_of_not_lt free) with ⟨after, stops, onward⟩
    rw [bind_of_error stops]
    unfold within
    rw [bind_of_error (show descend (id state) = _ from stops)]
    have counted : after.depth = state.depth := onward.depth
    have same : restoreDepth state after = after := by
      unfold restoreDepth
      rw [← counted]
    exact congrArg (EStateM.Result.error _) same

/-! ## The limit of nesting -/

/-- Runs a production that stops where it begins beyond the limit of nesting. -/
def watch (production : Production α) : Production α := fun state =>
  if state.depth ≤ state.maxDepth then production state else .error .endless state

/-- The recursive productions, all of which stop beyond the limit. -/
def Productions.watched (g : Productions) : Productions where
  typeId := watch g.typeId
  assignment := watch g.assignment
  expression := watch g.expression
  cast := watch g.cast
  binary minimum := watch (g.binary minimum)
  initializers := watch g.initializers
  parameter := watch g.parameter
  declaration place := watch (g.declaration place)
  statement := watch g.statement

/-- The productions that may nest a given number of times, written over watched ones. -/
def watchedProductions : Nat → Productions
  | 0 => .exhausted
  | level + 1 => (watchedProductions level).over.watched

/-- The terms on which a run may begin in any state within the limit. -/
def Terms.limited : Terms := ⟨fun _ => True, trivial, False⟩

theorem ready_limited (room : state.depth ≤ state.maxDepth) :
    Ready .limited levels spare state :=
  .ofLenient (fun _ => trivial) (.inr room)

/-- Within the limit it makes no difference to watch a production. -/
theorem Runs.watched (runs : Runs .limited state production twin owes post)
    (ready : Ready .limited levels spare state) :
    Runs .limited state production (watch twin) owes post := by
  have room : state.depth ≤ state.maxDepth := ready.room.resolve_left id
  have same : watch twin state = twin state := if_pos room
  exact ⟨runs.same.trans same.symm, runs.ended⟩

theorem Lasting.watched (lasting : Lasting .limited levels g h) :
    Lasting .limited levels g h.watched where
  typeId ready := (lasting.typeId ready).watched ready
  assignment ready := (lasting.assignment ready).watched ready
  expression ready := (lasting.expression ready).watched ready
  cast ready := (lasting.cast ready).watched ready
  binary minimum _ _ ready := (lasting.binary minimum ready).watched ready
  initializers ready pays := (lasting.initializers ready pays).watched ready
  parameter ready := (lasting.parameter ready).watched ready
  declaration place _ _ ready := (lasting.declaration place ready).watched ready
  statement ready := (lasting.statement ready).watched ready

theorem lasting_watched (level : Nat) :
    Lasting .limited level (productions level) (watchedProductions level) := by
  induction level with
  | zero => exact lasting_exhausted .limited
  | succ level ih => exact ih.over.watched

/-- From a state within the limit no production begins beyond it. -/
theorem Rule.eq_watched (rule : Rule α) (level : Nat) (room : state.depth ≤ state.maxDepth) :
    rule.production (productions level) state = rule.production (watchedProductions level) state :=
  (rule.runs (lasting_watched level) (fun _ => trivial) (ready_limited room)).same

/-! ## Chains -/

/-- The turn of a chain goes one level deeper for a link, where there is room, and otherwise
stays where it is. -/
def Steps (turn : Production (Turn α)) (before : State) : Prop :=
  (∀ value after, turn before = .ok (.done value) after → Restored before after) ∧
  (∀ value after, turn before = .ok (.again value) after →
    before.depth < before.maxDepth ∧ Restored before.deeper after) ∧
  ∀ stop after, turn before = .error stop after →
    Restored before after ∨ before.depth < before.maxDepth ∧ Restored before.deeper after

theorem Links.steps {turn turnTwin : Production (Turn α)}
    (links : Links terms state turn turnTwin) : Steps turn state := by
  have linked := links.linked
  refine ⟨fun value after result => ?_, fun value after result => ?_, fun stop after result => ?_⟩
  · rw [result] at linked
    exact linked.restored
  · rw [result] at linked
    exact ⟨linked.1, linked.2.1.restored⟩
  · rw [result] at linked
    exact linked.1.imp Onward.restored (And.imp_right Onward.restored)

/-- The chains of operators. -/
structure LinksStep (g : Productions) (state : State) : Prop where
  postfixes (left : Tree.Plain) : Steps (postfixLink g left) state
  binaries (minimum : Nat) (left : Tree.Plain) : Steps (binaryLink g minimum left) state
  commas (left : Tree.Plain) : Steps (commaLink g left) state

theorem linksStep_productions (level : Nat) (state : State) :
    LinksStep (productions level) state := by
  have lasting := lasting_productions .lenient level
  have ready : Ready .lenient level 2 state := ready_lenient
  exact
    { postfixes := fun left => (postfixLink_links lasting ready left).steps
      binaries := fun minimum left => (binaryLink_links lasting ready minimum left).steps
      commas := fun left => (commaLink_links lasting ready left).steps }

/-! ## The declarations of a file -/

/-- The states in front of the declarations of a file, and of what stands between them. -/
inductive TopLevel (g : Productions) (start : State) : State → Prop where
  | start : TopLevel g start start
  | behind {declarations more : List Tree.Plain} {before after : State} :
    TopLevel g start before →
    declarationTurn g .file declarations before = .ok (.again more) after →
    TopLevel g start after

/-- No level is taken and no template header is waiting. -/
structure Outermost (maxDepth : Nat) (state : State) : Prop where
  depth : state.depth = 0
  templateDepth : state.templateDepth = 0
  blockDepth : state.blockDepth = 0
  header : state.underHeader = false
  maxDepth : state.maxDepth = maxDepth

theorem TopLevel.onward {level : Nat} {start : State}
    (top : TopLevel (productions level) start state) : Onward start state := by
  induction top with
  | start => exact .refl start
  | @behind declarations _ before _ _ turn ih =>
    have ready : Ready .lenient level 2 before := ready_lenient
    have ended := (declarationTurn_runs (lasting_productions .lenient level) ready .file
      declarations).ended
    rw [turn] at ended
    exact ih.trans ended.1

theorem TopLevel.outermost {level maxDepth : Nat} {tokens : List Token}
    (top : TopLevel (productions level) (State.ofTokens maxDepth tokens) state) :
    Outermost maxDepth state where
  depth := top.onward.depth
  templateDepth := top.onward.templateDepth
  blockDepth := top.onward.blockDepth
  header := Bool.eq_false_iff.mpr fun set => Bool.noConfusion (top.onward.header set)
  maxDepth := top.onward.maxDepth

/-! ## All productions -/

/-- Every production gives its levels back in every state, however it ends, so that counting back
would do as well; none begins beyond the limit where the first does not, and a chain goes deeper
link by link where there is room; and in front of every declaration of a file no level is taken
and no template header is waiting. -/
theorem levels_restored (level : Nat) :
    (∀ (α : Type) (rule : Rule α) (state : State),
      Restores (rule.production (productions level)) state ∧
      (state.depth ≤ state.maxDepth → rule.production (productions level) state =
        rule.production (watchedProductions level) state) ∧
      nested (rule.production (productions level)) state =
        nestedCounting (rule.production (productions level)) state ∧
      inTemplate (rule.production (productions level)) state =
        inTemplateCounting (rule.production (productions level)) state ∧
      inBlock (rule.production (productions level)) state =
        inBlockCounting (rule.production (productions level)) state) ∧
    (∀ state, LinksStep (productions level) state) ∧
    ∀ (maxDepth : Nat) (tokens : List Token) (state : State),
      TopLevel (productions level) (State.ofTokens maxDepth tokens) state →
      Outermost maxDepth state := by
  refine ⟨fun α rule state => ?_, linksStep_productions level, fun _ _ _ => TopLevel.outermost⟩
  have restores := rule.restores level
  exact ⟨restores state, rule.eq_watched level, nested_eq_counting restores state,
    inTemplate_eq_counting restores state, inBlock_eq_counting restores state⟩

/-- A declaration stops inside parentheses inside template arguments under a header, and the next
one finds no level taken. -/
theorem levels_restored_misfit :
    ∃ after,
      TopLevel (productions 9)
        (State.ofTokens 4 (tokenize "" true "template<class T=A<(1;int x;").1) after ∧
      after.misfits.length = 1 ∧ kindOf after.tokens = .kwInt ∧ Outermost 4 after ∧
      (after.depth ≤ after.maxDepth ∧ Rule.typeId.production (productions 9) after =
        Rule.typeId.production (watchedProductions 9) after) := by
  have reads : (match declarationTurn (productions 9) .file []
      (State.ofTokens 4 (tokenize "" true "template<class T=A<(1;int x;").1) with
    | .ok (.again _) after => after.misfits.length == 1 && kindOf after.tokens == .kwInt
    | _ => false) = true := by
    decide +kernel
  split at reads
  · next more after turn =>
    rcases Bool.and_eq_true_iff.mp reads with ⟨misfit, front⟩
    have top := TopLevel.behind .start turn
    have outermost := (levels_restored 9).2.2 4 _ after top
    have room : after.depth ≤ after.maxDepth := outermost.depth ▸ Nat.zero_le _
    exact ⟨after, top, eq_of_beq misfit, eq_of_beq front, outermost, room,
      ((levels_restored 9).1 _ .typeId after).2.1 room⟩
  · cases reads

end Grammar
end CppNames
