import CppNames.Proofs.Running.Basic

namespace CppNames
namespace Grammar

/-!
# How loops run

A turn of a loop that goes on passes a token, so a loop bounded by more than the weight of the
text ends before its bound.  The links of a chain each take one level of nesting, which the
chain gives back in its end; `Links` is the judgement for the turns of its loop.

Where a production stops at a misfit, parsing resumes behind the trouble.  A declaration or a
statement is tried in front of a token that does not close the list it stands in, and then
resuming passes a token even if the production passed none.
-/

variable {terms : Terms} {levels spare paid : Nat} {state after : State}
  {α : Type} {production twin : Production α} {step stepTwin : α → Production (Turn α)}

/-! ## Loops -/

/-- What a turn of a loop owes: a turn that goes on owes a token. -/
def Turn.price (last : Nat) : Turn α → Nat
  | .again _ => 1
  | .done _ => last

/-- What holds where a loop goes on and where it is done. -/
def Turned (keeps ends : α → State → Prop) : Turn α → State → Prop
  | .again value => keeps value
  | .done value => ends value

section Loops

variable {keeps ends : α → State → Prop} {last : Nat}

/-- A loop keeps what a turn of it keeps.  Its bound is not reached where it is greater than the
weight of the text. -/
theorem Runs.repeatWithin {value : α} {count : Nat} (ready : Ready terms levels spare state)
    (enough : terms.may .endless ∨ weigh state.tokens < count) (begins : keeps value state)
    (turns : ∀ value state, Ready terms levels spare state → keeps value state →
      Runs terms state (step value) (stepTwin value) (Turn.price last) (Turned keeps ends)) :
    Runs terms state (Grammar.repeatWithin step count value)
      (Grammar.repeatWithin stepTwin count value) (fun _ => last) ends := by
  induction count generalizing value state with
  | zero => exact .throw (enough.resolve_right (Nat.not_lt_zero _))
  | succ count ih =>
    unfold Grammar.repeatWithin
    refine .sequence (turns value state ready begins) fun turn middle onward pays holds => ?_
    cases turn with
    | done value => exact .pure (Nat.sub_self _) holds
    | again value =>
      have pays : weigh middle.tokens + 1 ≤ weigh state.tokens := pays
      have rest := ih (ready.onward onward pays).less
        (enough.imp_right fun enough => by omega) holds
      exact rest.weaken (fun _ => Nat.sub_le _ _) fun _ _ => id

theorem Runs.repeatFrom {start : α} (ready : Ready terms levels spare state)
    (begins : keeps start state)
    (turns : ∀ value state, Ready terms levels spare state → keeps value state →
      Runs terms state (step value) (stepTwin value) (Turn.price last) (Turned keeps ends)) :
    Runs terms state (Grammar.repeatFrom start step) (Grammar.repeatFrom start stepTwin)
      (fun _ => last) ends := by
  have loop := Runs.repeatWithin ready ready.loops begins turns
  exact ⟨loop.same, loop.ended⟩

/-- A loop of whose values nothing is known. -/
theorem Runs.repeating {start : α} (ready : Ready terms levels spare state)
    (turns : ∀ value state, Ready terms levels spare state →
      Runs terms state (step value) (stepTwin value) (Turn.price last) anything) :
    Runs terms state (Grammar.repeatFrom start step) (Grammar.repeatFrom start stepTwin)
      (fun _ => last) anything := by
  have begins : anything start state := trivial
  refine .repeatFrom ready begins fun value state ready _ => ?_
  refine (turns value state ready).weaken (fun _ => Nat.le_refl _) fun turn _ _ => ?_
  cases turn with
  | again value => exact trivial
  | done value => exact trivial

end Loops

theorem Runs.commaSeparated {item itemTwin : Production (List Tree.Plain)}
    (ready : Ready terms levels spare state)
    (items : ∀ state, Ready terms levels spare state →
      Runs terms state item itemTwin nothing anything) :
    Runs terms state (Grammar.commaSeparated item) (Grammar.commaSeparated itemTwin)
      nothing anything :=
  .repeating ready fun _ state ready => .behind ready (items state ready) fun _ _ ready =>
    .optional ready rfl (fun _ _ _ => .pure rfl trivial) (.pure rfl trivial)

/-! ## Runs of tokens -/

/-- How many keywords `long` some trees are. -/
def longsTaken (trees : List Tree.Plain) : Nat := (trees.filterMap Tree.kind?).count .kwLong

theorem count_add_longsIn (more : kindOf state.tokens ≠ .endOfFile) :
    [kindOf state.tokens].count .kwLong + longsIn state.behindNext.tokens =
      longsIn state.tokens := by
  have behind : state.behindNext.tokens = state.tokens.tail := rfl
  rw [behind]
  cases tokens : state.tokens with
  | nil => exact absurd (by rw [tokens]; rfl) more
  | cons token rest =>
    rw [List.tail_cons, longsIn, longsIn, List.countP_cons, List.count_singleton, Nat.add_comm]
    rfl

theorem longsTaken_append (trees : List Tree.Plain) (more : kindOf state.tokens ≠ .endOfFile) :
    longsTaken (trees ++ [Tree.ofToken state.next]) =
      longsTaken trees + [kindOf state.tokens].count .kwLong := by
  have front : Tree.kind? (Tree.ofToken state.next) = some (kindOf state.tokens) := by
    cases tokens : state.tokens with
    | nil => exact absurd (by rw [tokens]; rfl) more
    | cons token rest =>
      rw [State.next, tokens]
      rfl
  rw [longsTaken, List.filterMap_append, List.count_append, List.filterMap_cons, front]
  rfl

/-- Of the keywords `long` in front of a state, some were taken and the others are left. -/
def KeepsLongs (state : State) (words : List Tree.Plain) (after : State) : Prop :=
  longsTaken words + longsIn after.tokens = longsIn state.tokens

theorem KeepsLongs.take {words : List Tree.Plain} {middle : State}
    (keeps : KeepsLongs state words middle) (more : kindOf middle.tokens ≠ .endOfFile) :
    KeepsLongs state (words ++ [Tree.ofToken middle.next]) middle.behindNext := by
  unfold KeepsLongs at keeps ⊢
  rw [longsTaken_append words more, Nat.add_assoc, count_add_longsIn more]
  exact keeps

/-- The tokens in front that satisfy a test.  Of the keywords `long` none is lost. -/
theorem Runs.takeRun {test : Token.Kind → Bool} (ready : Ready terms levels spare state)
    (noEnd : test .endOfFile = false) :
    Runs terms state (Grammar.takeRun test) (Grammar.takeRun test) nothing
      fun words after => longsTaken words + longsIn after.tokens = longsIn state.tokens := by
  have begins : KeepsLongs state [] state := Nat.zero_add _
  refine .repeatFrom ready begins fun words middle ready keeps => ?_
  refine .kind fun found front => ?_
  split
  · next passes =>
    have more : kindOf middle.tokens ≠ .endOfFile := by
      intro ended
      rw [← front, ended, noEnd] at passes
      cases passes
    refine .bind ready (.takeSome more) fun tree after _ _ taken => .pure rfl ?_
    rcases taken with ⟨rfl, rfl⟩
    exact keeps.take more
  · exact .pure rfl keeps

/-! ## Chains -/

/-- How a turn of a chain may end: a link takes a token and one level, where there is room. -/
def Linked (terms : Terms) (before : State) : EStateM.Result Stop State (Turn α) → Prop
  | .ok (.done _) after => Onward before after
  | .ok (.again _) after =>
    before.depth < before.maxDepth ∧ Onward before.deeper after ∧
      weigh after.tokens + 1 ≤ weigh before.tokens
  | .error stop after => (Onward before after ∨
    before.depth < before.maxDepth ∧ Onward before.deeper after) ∧ terms.may stop

/-- A turn of a chain and its twin run alike from a state. -/
structure Links (terms : Terms) (before : State) (turn twin : Production (Turn α)) : Prop where
  same : turn before = twin before
  linked : Linked terms before (turn before)

namespace Links

variable {β : Type} {next nextTwin : β → Production (Turn α)}

theorem done {value : α} : Links terms state (Pure.pure (.done value)) (Pure.pure (.done value)) :=
  ⟨rfl, .refl state⟩

theorem ask {question : State → β} {inquiry : Production β}
    (same : ∀ state, inquiry state = .ok (question state) state)
    (rest : Links terms state (next (question state)) (nextTwin (question state))) :
    Links terms state (inquiry >>= next) (inquiry >>= nextTwin) := by
  refine ⟨?_, ?_⟩
  · rw [bind_of_ok (same state), bind_of_ok (same state)]
    exact rest.same
  · rw [bind_of_ok (same state)]
    exact rest.linked

theorem kind {next nextTwin : Token.Kind → Production (Turn α)}
    (rest : ∀ found, kindOf state.tokens = found → Links terms state (next found) (nextTwin found)) :
    Links terms state (Grammar.kind >>= next) (Grammar.kind >>= nextTwin) :=
  .ask (fun _ => rfl) (rest _ rfl)

/-- A link is made one level deeper. -/
theorem link {made madeTwin : Unit → Production (Turn α)} (ready : Ready terms levels spare state)
    (runs : Ready terms levels spare state.deeper →
      Runs terms state.deeper (made ()) (madeTwin ()) (fun _ => 1)
        (Turned anything fun _ _ => False)) :
    Links terms state (descend >>= made) (descend >>= madeTwin) := by
  by_cases free : state.depth < state.maxDepth
  · have turn := runs (ready.deeper free)
    have descends := descend_of_lt free
    refine ⟨?_, ?_⟩
    · rw [bind_of_ok descends, bind_of_ok descends]
      exact turn.same
    · rw [bind_of_ok descends]
      have ended := turn.ended
      cases result : made () state.deeper with
      | error stop after =>
        rw [result] at ended
        exact ⟨.inr ⟨free, ended.1⟩, ended.2⟩
      | ok turn after =>
        rw [result] at ended
        cases turn with
        | again value => exact ⟨free, ended.1, ended.2.1⟩
        | done value => exact ended.2.2.elim
  · rcases descend_of_le (Nat.le_of_not_lt free) with ⟨after, stops, onward⟩
    refine ⟨?_, ?_⟩
    · rw [bind_of_error stops, bind_of_error stops]
    · rw [bind_of_error stops]
      exact ⟨.inl onward, terms.misfit⟩

end Links

/-- How a chain may end before its levels are given back. -/
def Chained (terms : Terms) (paid : Nat) (before : State) :
    EStateM.Result Stop State α → Prop
  | .ok _ after => Passes before after ∧ weigh after.tokens + paid ≤ weigh before.tokens
  | .error stop after => Passes before after ∧ terms.may stop

theorem Chained.behind {before middle : State} {result : EStateM.Result Stop State α}
    (chained : Chained terms 0 middle result) (passes : Passes before middle)
    (pays : weigh middle.tokens + paid ≤ weigh before.tokens) :
    Chained terms paid before result := by
  cases result with
  | error stop after => exact ⟨passes.trans chained.1, chained.2⟩
  | ok value after =>
    have rest := chained.2
    exact ⟨passes.trans chained.1, by omega⟩

/-- Once its levels are given back, a chain runs as any production. -/
theorem Runs.restored (same : production state = twin state)
    (ended : Chained terms paid state (production state)) :
    Runs terms state (Grammar.chained production) (Grammar.chained twin) (fun _ => paid)
      anything := by
  unfold Grammar.chained Grammar.within
  refine ⟨?_, ?_⟩
  · dsimp only [id]
    rw [same]
  · dsimp only [id]
    cases result : production state with
    | error stop after =>
      rw [result] at ended
      exact ⟨ended.1.restored, ended.2⟩
    | ok value after =>
      rw [result] at ended
      exact ⟨ended.1.restored, ended.2, trivial⟩

/-- What a link leaves is ready for the next one. -/
theorem Ready.linked (ready : Ready terms levels spare state)
    (free : state.depth < state.maxDepth) (onward : Onward state.deeper after) :
    Ready terms levels spare after :=
  (ready.deeper free).behind onward

theorem chained_repeatWithin (value : α) {count : Nat} (ready : Ready terms levels spare state)
    (enough : terms.may .endless ∨ weigh state.tokens < count)
    (turns : ∀ value state, Ready terms levels spare state →
      Links terms state (step value) (stepTwin value)) :
    repeatWithin step count value state = repeatWithin stepTwin count value state ∧
      Chained terms 0 state (repeatWithin step count value state) := by
  induction count generalizing value state with
  | zero =>
    have endless := enough.resolve_right (Nat.not_lt_zero _)
    exact ⟨rfl, (Onward.refl state).toPasses, endless⟩
  | succ count ih =>
    have links := turns value state ready
    have same := links.same
    have linked := links.linked
    unfold repeatWithin
    cases result : step value state with
    | error stop after =>
      rw [result] at same linked
      rw [bind_of_error result, bind_of_error same.symm]
      refine ⟨rfl, ?_, linked.2⟩
      rcases linked.1 with onward | ⟨_, onward⟩
      · exact onward.toPasses
      · exact (passes_deeper state).trans onward.toPasses
    | ok turn middle =>
      rw [result] at same linked
      rw [bind_of_ok result, bind_of_ok same.symm]
      cases turn with
      | done value => exact ⟨rfl, linked.toPasses, linked.weigh_le⟩
      | again value =>
        rcases linked with ⟨free, onward, pays⟩
        have passes := (passes_deeper state).trans onward.toPasses
        have rest := ih value (ready.linked free onward)
          (enough.imp_right fun enough => by omega)
        exact ⟨rest.1, rest.2.behind passes passes.weigh_le⟩

/-- A chain gives back the levels of its links. -/
theorem Runs.chained (ready : Ready terms levels spare state)
    (begins : Runs terms state production twin (fun _ => paid) anything)
    (turns : ∀ value state, Ready terms levels spare state →
      Links terms state (step value) (stepTwin value)) :
    Runs terms state (Grammar.chained do Grammar.repeatFrom (← production) step)
      (Grammar.chained do Grammar.repeatFrom (← twin) stepTwin) (fun _ => paid) anything := by
  have same := begins.same
  have ended := begins.ended
  cases result : production state with
  | error stop after =>
    rw [result] at same ended
    refine .restored ?_ ?_
    · rw [bind_of_error result, bind_of_error same.symm]
    · rw [bind_of_error result]
      exact ⟨ended.1.toPasses, ended.2⟩
  | ok value middle =>
    rw [result] at same ended
    rcases ended with ⟨onward, pays, _⟩
    have readyBehind := ready.behind onward
    have loop := chained_repeatWithin value readyBehind readyBehind.loops turns
    refine .restored ?_ ?_
    · rw [bind_of_ok result, bind_of_ok same.symm]
      exact loop.1
    · rw [bind_of_ok result]
      exact loop.2.behind onward.toPasses pays

/-! ## Resuming -/

theorem weigh_resumed_cons (braces : Nat) {token : Token} (rest : List Token)
    (closes : token.kind = .closeBrace → braces ≠ 0) :
    weigh (resumed braces (token :: rest)) ≤ weigh rest := by
  unfold resumed
  split
  · exact Nat.le_refl _
  · exact weigh_le_of_suffix (Reads.suffix_resumed _ rest)
  · next brace => exact absurd rfl (closes brace)
  · exact weigh_le_of_suffix (Reads.suffix_behindSemicolon rest)
  · exact weigh_le_of_suffix (Reads.suffix_resumed _ rest)
  · exact weigh_le_of_suffix (Reads.suffix_resumed _ rest)

/-- Parsing resumes behind the token in front, unless this closes what was not opened. -/
theorem weigh_resumed {tokens : List Token} (more : kindOf tokens ≠ .endOfFile)
    (opened : kindOf tokens ≠ .closeBrace) :
    weigh (resumed 0 tokens) + 1 ≤ weigh tokens := by
  cases tokens with
  | nil => exact absurd rfl more
  | cons token rest =>
    have drops := weigh_resumed_cons 0 rest fun brace => absurd brace opened
    have one := weight_pos token
    rw [weigh_cons]
    omega

/-- Splitting the token in front makes no other end and no brace of it. -/
theorem Halved.kindOf_eq {whole split : List Token} (halved : Halved whole split) :
    kindOf split = kindOf whole ∨ kindOf split = .greater := by
  cases halved with
  | nil => exact .inl rfl
  | keep token _ => exact .inl rfl
  | halve halves _ =>
    rcases eq_of_halves? halves with ⟨_, rfl, rfl⟩
    exact .inr rfl

/-- From trouble that began in front of a token that closes nothing, parsing resumes behind a
token. -/
theorem Onward.weigh_resumed (onward : Onward state after)
    (more : kindOf state.tokens ≠ .endOfFile) (opened : kindOf state.tokens ≠ .closeBrace) :
    weigh (resumed 0 after.tokens) + 1 ≤ weigh state.tokens := by
  rcases onward.passed with ⟨passed, halved⟩
  have total := halved.weigh_eq
  rw [weigh_append] at total
  cases passed with
  | nil =>
    have front : kindOf after.tokens ≠ .endOfFile ∧ kindOf after.tokens ≠ .closeBrace := by
      rcases halved.kindOf_eq with same | greater
      · rw [List.nil_append] at same
        exact ⟨same ▸ more, same ▸ opened⟩
      · rw [List.nil_append] at greater
        rw [greater]
        decide
    have drops := Grammar.weigh_resumed front.1 front.2
    change 0 + _ = _ at total
    omega
  | cons token rest =>
    have one := weight_pos token
    have behind := weigh_le_of_suffix (Reads.suffix_resumed 0 after.tokens)
    rw [weigh_cons] at total
    omega

theorem Onward.resumed (onward : Onward state after) :
    Onward state { after with tokens := Grammar.resumed 0 after.tokens } := by
  rcases onward.passed with ⟨passed, halved⟩
  rcases Reads.suffix_resumed 0 after.tokens with ⟨skipped, behind⟩
  rw [← behind, ← List.append_assoc] at halved
  exact ⟨⟨⟨onward.maxDepth, onward.templateDepth, onward.blockDepth⟩, ⟨_, halved⟩, onward.bound,
    onward.header⟩, onward.depth⟩

/-- Recovering in front of a token that closes nothing passes a token. -/
theorem Runs.recovering {production twin : Production Tree.Plain}
    (more : kindOf state.tokens ≠ .endOfFile) (opened : kindOf state.tokens ≠ .closeBrace)
    (runs : Runs terms state production twin (fun _ => 1) anything) :
    Runs terms state (Grammar.recovering production) (Grammar.recovering twin) (fun _ => 1)
      anything := by
  have ended := runs.ended
  unfold Grammar.recovering
  refine ⟨?_, ?_⟩
  · rw [runs.same]
  · cases result : production state with
    | ok tree after =>
      rw [result] at ended
      exact ⟨ended.1, ended.2.1, trivial⟩
    | error stop after =>
      rw [result] at ended
      cases stop with
      | misfit => exact ⟨ended.1.resumed, ended.1.weigh_resumed more opened, trivial⟩
      | _ => exact ended

end Grammar
end CppNames
