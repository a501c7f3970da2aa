import CppNames.Grammar.Parse
import CppNames.Proofs.Nesting.Building

namespace CppNames
namespace Grammar

/-!
# How productions run

`Runs` says of a production in one state that it passes tokens from the front of the text and
leaves the levels of nesting as they were, whether it answers or stops, and for which reasons it
may stop.  It also says how many tokens are certainly passed where there is an answer: what a
loop or a deeper level of the recursion needs is that tokens were passed since the last turn or
level.

A production is written over the recursive productions.  `Runs` compares two runs of it, over
two collections of them, and they are shown to be the same.  With one collection twice this says
nothing more; with two that agree only where they are used it shows how they are used.
-/

/-!
## Where a run may begin

The loops and the recursion of the parser are bounded by numbers.  What keeps the bounds from
being reached is the weight of the text that is left: the number of tokens it can become, both
halves of every `>>` counted, which no splitting changes.

`Ready` says that the bounds are beyond the weight, and that the few other reasons to stop
cannot come up either.  The terms of a run tell which of this is asked for.  Where a reason to
stop is admitted, what keeps it away need not be shown, so that one pass over the grammar serves
texts of which something is known as well as any state whatever.
-/

section

/-! ## Weights -/

/-- How many tokens some tokens can become. -/
def weigh : List Token → Nat
  | [] => 0
  | token :: rest => weight token + weigh rest

/-- How many of some tokens are the keyword `long`. -/
def longsIn (tokens : List Token) : Nat := tokens.countP (·.kind == .kwLong)

theorem weigh_cons (token : Token) (rest : List Token) :
    weigh (token :: rest) = weight token + weigh rest := rfl

theorem weigh_append (front back : List Token) :
    weigh (front ++ back) = weigh front + weigh back := by
  induction front with
  | nil => exact (Nat.zero_add _).symm
  | cons token rest ih => rw [List.cons_append, weigh_cons, weigh_cons, ih, Nat.add_assoc]

theorem weigh_le_of_suffix {rest tokens : List Token} (suffix : rest <:+ tokens) :
    weigh rest ≤ weigh tokens := by
  rcases suffix with ⟨front, rfl⟩
  rw [weigh_append]
  exact Nat.le_add_left _ _

theorem longsIn_append (front back : List Token) :
    longsIn (front ++ back) = longsIn front + longsIn back := List.countP_append

/-- Splitting changes no weight. -/
theorem Halved.weigh_eq {whole split : List Token} (halved : Halved whole split) :
    weigh split = weigh whole := by
  induction halved with
  | nil => rfl
  | keep token _ ih => rw [weigh_cons, weigh_cons, ih]
  | @halve token left right whole split halves _ ih =>
    have unsplit := halves?_of_halves? halves
    have two : weight token = 2 := by rw [weight, halves]; rfl
    have one : weight left = 1 ∧ weight right = 1 := by
      rw [weight, weight, unsplit.1, unsplit.2]
      exact ⟨rfl, rfl⟩
    rw [weigh_cons, weigh_cons, weigh_cons, ih, two, one.1, one.2, ← Nat.add_assoc]

theorem Halved.longsIn_eq {whole split : List Token} (halved : Halved whole split) :
    longsIn split = longsIn whole := by
  induction halved with
  | nil => rfl
  | keep token _ ih => rw [longsIn, List.countP_cons, ← longsIn, ih, longsIn, longsIn, List.countP_cons]
  | @halve token left right whole split halves _ ih =>
    rcases eq_of_halves? halves with ⟨shift, rfl, rfl⟩
    have other : (token.kind == .kwLong) = false := by rw [shift]; rfl
    rw [longsIn, List.countP_cons, List.countP_cons, ← longsIn, ih, longsIn, longsIn,
      List.countP_cons, other]
    rfl

/-! ## From one state to a later one -/

/-- Tokens are passed, and nothing else changes but the names learned, the reports, the depth,
and that a template header may have been used up. -/
structure Passes (before after : State) : Prop extends Beside before after where
  passed : ∃ passed, Halved before.tokens (passed ++ after.tokens)
  bound : after.bound = before.bound
  header : after.underHeader = true → before.underHeader = true

/-- The depth is the same as well. -/
structure Onward (before after : State) : Prop extends Passes before after where
  depth : after.depth = before.depth

variable {first second third : State}

theorem Passes.trans (early : Passes first second) (late : Passes second third) :
    Passes first third where
  toBeside := early.toBeside.trans late.toBeside
  passed := by
    rcases early.passed with ⟨passed, halved⟩
    rcases late.passed with ⟨passedLate, halvedLate⟩
    exact ⟨passed ++ passedLate, halved.through halvedLate⟩
  bound := late.bound.trans early.bound
  header set := early.header (late.header set)

theorem Passes.weigh_le (passes : Passes first second) :
    weigh second.tokens ≤ weigh first.tokens := by
  rcases passes.passed with ⟨passed, halved⟩
  rw [← halved.weigh_eq, weigh_append]
  exact Nat.le_add_left _ _

theorem Passes.longsIn_le (passes : Passes first second) :
    longsIn second.tokens ≤ longsIn first.tokens := by
  rcases passes.passed with ⟨passed, halved⟩
  rw [← halved.longsIn_eq, longsIn_append]
  exact Nat.le_add_left _ _

/-- A keyword that is nowhere in the text is not there later on either. -/
theorem Passes.none {kind : Token.Kind} (passes : Passes first second) (other : kind ≠ .greater)
    (none : ∀ token ∈ first.tokens, token.kind ≠ kind) :
    ∀ token ∈ second.tokens, token.kind ≠ kind := by
  rcases passes.passed with ⟨passed, halved⟩
  intro token member
  exact halved.all (fun _ _ _ => ⟨other.symm, other.symm⟩) none token (List.mem_append_right _ member)

theorem Onward.refl (state : State) : Onward state state :=
  ⟨⟨⟨rfl, rfl, rfl⟩, ⟨[], .refl _⟩, rfl, id⟩, rfl⟩

theorem Onward.trans (early : Onward first second) (late : Onward second third) :
    Onward first third :=
  ⟨early.toPasses.trans late.toPasses, late.depth.trans early.depth⟩

/-! ## The terms of a run -/

/-- What a run is held to: for which reasons it may stop, besides at a token that does not fit,
and whether it may begin beyond the limit of nesting. -/
structure Terms where
  may : Stop → Prop
  misfit : may .misfit
  deep : Prop

variable {terms : Terms} {levels spare paid : Nat} {state after : State}

/-- A state in which the reasons to stop that are not admitted cannot come up.  The loops are
bounded by more than the weight of the text, and the levels of the recursion by the weight and
some to spare. -/
structure Ready (terms : Terms) (levels spare : Nat) (state : State) : Prop where
  loops : terms.may .endless ∨ weigh state.tokens < state.bound
  levels : terms.may .endless ∨ weigh state.tokens + spare ≤ levels
  longs : terms.may .overflow ∨ longsIn state.tokens < capacity 8
  operators : (∀ flaw, terms.may (.flaw flaw)) ∨ ∀ token ∈ state.tokens, token.kind ≠ .kwOperator
  room : terms.deep ∨ state.depth ≤ state.maxDepth

namespace Ready

/-- Every state within the limit is ready where every reason to stop is admitted. -/
theorem ofLenient (all : ∀ stop, terms.may stop)
    (room : terms.deep ∨ state.depth ≤ state.maxDepth) : Ready terms levels spare state :=
  ⟨.inl (all _), .inl (all _), .inl (all _), .inl fun _ => all _, room⟩

theorem onward (ready : Ready terms levels spare state) (onward : Onward state after)
    (pays : weigh after.tokens + paid ≤ weigh state.tokens) :
    Ready terms levels (spare + paid) after where
  loops := ready.loops.imp_right fun enough => by
    rw [onward.bound]
    exact Nat.lt_of_le_of_lt onward.weigh_le enough
  levels := ready.levels.imp_right fun enough => by omega
  longs := ready.longs.imp_right (Nat.lt_of_le_of_lt onward.longsIn_le)
  operators := ready.operators.imp_right (onward.none (by decide))
  room := ready.room.imp_right fun room => by rwa [onward.depth, onward.maxDepth]

theorem behind (ready : Ready terms levels spare state) (onward : Onward state after) :
    Ready terms levels spare after := by
  have pays : weigh after.tokens + 0 ≤ weigh state.tokens := onward.weigh_le
  exact ready.onward onward pays

theorem less (ready : Ready terms levels (spare + paid) state) : Ready terms levels spare state :=
  { ready with levels := ready.levels.imp_right fun enough => by omega }

/-- A production of a level recurs into the level below. -/
theorem lower (ready : Ready terms (levels + 1) (spare + 1) state) :
    Ready terms levels spare state :=
  { ready with levels := ready.levels.imp_right fun enough => by omega }

/-- What is ready stays so where the tokens and the depth are the same. -/
theorem entered (ready : Ready terms levels spare state) (tokens : after.tokens = state.tokens)
    (bound : after.bound = state.bound)
    (room : state.depth ≤ state.maxDepth → after.depth ≤ after.maxDepth) :
    Ready terms levels spare after where
  loops := by rw [tokens, bound]; exact ready.loops
  levels := by rw [tokens]; exact ready.levels
  longs := by rw [tokens]; exact ready.longs
  operators := by rw [tokens]; exact ready.operators
  room := ready.room.imp_right room

theorem deeper (ready : Ready terms levels spare state) (free : state.depth < state.maxDepth) :
    Ready terms levels spare state.deeper :=
  ready.entered rfl rfl fun _ => free

end Ready

end

variable {terms : Terms} {levels spare paid : Nat} {state after : State}

/-! ## Runs -/

/-- How a run may end: with an answer for which enough tokens were passed, or for a reason that
is admitted. -/
def Ended {α : Type} (terms : Terms) (before : State) (owes : α → Nat)
    (post : α → State → Prop) : EStateM.Result Stop State α → Prop
  | .ok value after =>
    Onward before after ∧ weigh after.tokens + owes value ≤ weigh before.tokens ∧ post value after
  | .error stop after => Onward before after ∧ terms.may stop

/-- A production and its twin run alike from a state.  What the answer owes is the weight of the
tokens that are passed for it at least. -/
structure Runs {α : Type} (terms : Terms) (before : State) (production twin : Production α)
    (owes : α → Nat) (post : α → State → Prop) : Prop where
  same : production before = twin before
  ended : Ended terms before owes post (production before)

/-- Nothing is asked of an answer. -/
def anything {α : Type} : α → State → Prop := fun _ _ => True

/-- Nothing is owed by an answer. -/
def nothing {α : Type} : α → Nat := fun _ => 0

variable {α β : Type} {production twin : Production α} {owes : α → Nat} {post : α → State → Prop}

namespace Runs

variable {next nextTwin : α → Production β} {owesAll : β → Nat} {final : β → State → Prop}

theorem weaken {fewer : α → Nat} {weaker : α → State → Prop}
    (runs : Runs terms state production twin owes post) (le : ∀ value, fewer value ≤ owes value)
    (implies : ∀ value after, post value after → weaker value after) :
    Runs terms state production twin fewer weaker := by
  refine ⟨runs.same, ?_⟩
  have ended := runs.ended
  cases result : production state with
  | error stop after => rw [result] at ended; exact ended
  | ok value after =>
    rw [result] at ended
    refine ⟨ended.1, Nat.le_trans (Nat.add_le_add_left (le value) _) ended.2.1,
      implies value after ended.2.2⟩

/-- A run of whose answer nothing more is asked. -/
theorem any (runs : Runs terms state production twin owes post) :
    Runs terms state production twin nothing anything :=
  runs.weaken (fun _ => Nat.zero_le _) fun _ _ _ => trivial

theorem pure {value : α} (settled : owes value = 0) (holds : post value state) :
    Runs terms state (Pure.pure value) (Pure.pure value) owes post := by
  refine ⟨rfl, .refl state, ?_, holds⟩
  rw [settled]
  exact Nat.le_refl _

theorem throw {stop : Stop} (admitted : terms.may stop) :
    Runs terms state (MonadExcept.throw stop : Production α) (MonadExcept.throw stop) owes post :=
  ⟨rfl, .refl state, admitted⟩

/-- In a sequence the first part pays for some of what is owed. -/
theorem sequence (begins : Runs terms state production twin owes post)
    (rest : ∀ value after, Onward state after →
      weigh after.tokens + owes value ≤ weigh state.tokens → post value after →
      Runs terms after (next value) (nextTwin value) (fun result => owesAll result - owes value)
        final) :
    Runs terms state (production >>= next) (twin >>= nextTwin) owesAll final := by
  have same := begins.same
  have ended := begins.ended
  cases result : production state with
  | error stop after =>
    rw [result] at same ended
    refine ⟨?_, ?_⟩
    · rw [bind_of_error result, bind_of_error same.symm]
    · rw [bind_of_error result]
      exact ended
  | ok value middle =>
    rw [result] at same ended
    rcases ended with ⟨onward, pays, holds⟩
    have runs := rest value middle onward pays holds
    refine ⟨?_, ?_⟩
    · rw [bind_of_ok result, bind_of_ok same.symm]
      exact runs.same
    · rw [bind_of_ok result]
      have endedBehind := runs.ended
      cases last : next value middle with
      | error stop after =>
        rw [last] at endedBehind
        exact ⟨onward.trans endedBehind.1, endedBehind.2⟩
      | ok value after =>
        rw [last] at endedBehind
        refine ⟨onward.trans endedBehind.1, ?_, endedBehind.2.2⟩
        have paysBehind := endedBehind.2.1
        dsimp only at paysBehind
        omega

/-- Where the first part always pays the same, what comes behind it has that much more room. -/
theorem bind (ready : Ready terms levels spare state)
    (begins : Runs terms state production twin (fun _ => paid) post)
    (rest : ∀ value after, Onward state after → Ready terms levels (spare + paid) after →
      post value after →
      Runs terms after (next value) (nextTwin value) (fun result => owesAll result - paid) final) :
    Runs terms state (production >>= next) (twin >>= nextTwin) owesAll final :=
  .sequence begins fun value after onward pays holds =>
    rest value after onward (ready.onward onward pays) holds

/-- What comes behind a production of whose answer nothing is asked. -/
theorem behind (ready : Ready terms levels spare state)
    (begins : Runs terms state production twin (fun _ => paid) anything)
    (rest : ∀ value after, Ready terms levels (spare + paid) after →
      Runs terms after (next value) (nextTwin value) (fun result => owesAll result - paid) final) :
    Runs terms state (production >>= next) (twin >>= nextTwin) owesAll final :=
  .bind ready begins fun value after _ ready _ => rest value after ready

/-- An answer that is put together from that of a run. -/
theorem answering {answer : α → β}
    (begins : Runs terms state production twin (fun _ => paid) anything)
    (settled : ∀ value, owesAll (answer value) - paid = 0) :
    Runs terms state (production >>= fun value => Pure.pure (answer value))
      (twin >>= fun value => Pure.pure (answer value)) owesAll anything :=
  .sequence begins fun value _ _ _ _ => .pure (settled value) trivial

/-- What comes behind one of two parts. -/
theorem bindIf {condition : Prop} [Decidable condition] {other otherTwin : Production α}
    (ready : Ready terms levels spare state)
    (yes : condition → Runs terms state production twin (fun _ => paid) anything)
    (no : ¬condition → Runs terms state other otherTwin (fun _ => paid) anything)
    (rest : ∀ value after, Ready terms levels (spare + paid) after →
      Runs terms after (next value) (nextTwin value) (fun result => owesAll result - paid) final) :
    Runs terms state (if condition then production >>= next else other >>= next)
      (if condition then twin >>= nextTwin else otherTwin >>= nextTwin) owesAll final := by
  by_cases holds : condition
  · rw [if_pos holds, if_pos holds]
    exact .behind ready (yes holds) rest
  · rw [if_neg holds, if_neg holds]
    exact .behind ready (no holds) rest

/-- A change of the answer. -/
theorem map {function : α → β} {final : β → State → Prop}
    (runs : Runs terms state production twin (fun value => owesAll (function value))
      fun value after => final (function value) after) :
    Runs terms state (function <$> production) (function <$> twin) owesAll final := by
  have same := runs.same
  have ended := runs.ended
  constructor
  · change EStateM.map function production state = EStateM.map function twin state
    unfold EStateM.map
    rw [same]
  · change Ended terms state owesAll final (EStateM.map function production state)
    unfold EStateM.map
    cases result : production state with
    | error stop after => rw [result] at ended; exact ended
    | ok value after => rw [result] at ended; exact ended

/-! ## Looking at tokens -/

/-- A question about the state, which changes nothing. -/
theorem ask {question : State → α} {inquiry : Production α}
    (same : ∀ state, inquiry state = .ok (question state) state)
    (rest : Runs terms state (next (question state)) (nextTwin (question state)) owesAll final) :
    Runs terms state (inquiry >>= next) (inquiry >>= nextTwin) owesAll final := by
  refine ⟨?_, ?_⟩
  · rw [bind_of_ok (same state), bind_of_ok (same state)]
    exact rest.same
  · rw [bind_of_ok (same state)]
    exact rest.ended

theorem kind {next nextTwin : Token.Kind → Production β}
    (rest : ∀ found, kindOf state.tokens = found →
      Runs terms state (next found) (nextTwin found) owesAll final) :
    Runs terms state (Grammar.kind >>= next) (Grammar.kind >>= nextTwin) owesAll final :=
  .ask (fun _ => rfl) (rest _ rfl)

theorem kindBehind {next nextTwin : Token.Kind → Production β}
    (rest : ∀ found, kindOf (state.tokens.drop 1) = found →
      Runs terms state (next found) (nextTwin found) owesAll final) :
    Runs terms state (Grammar.kindBehind >>= next) (Grammar.kindBehind >>= nextTwin) owesAll final :=
  .ask (fun _ => rfl) (rest _ rfl)

theorem asks {question : State → Bool} {next nextTwin : Bool → Production β}
    (rest : ∀ answer, Runs terms state (next answer) (nextTwin answer) owesAll final) :
    Runs terms state (Grammar.asks question >>= next) (Grammar.asks question >>= nextTwin)
      owesAll final :=
  .ask (fun _ => rfl) (rest _)

theorem sees {expected : Token.Kind} {next nextTwin : Bool → Production β}
    (yes : kindOf state.tokens = expected →
      Runs terms state (next true) (nextTwin true) owesAll final)
    (no : kindOf state.tokens ≠ expected →
      Runs terms state (next false) (nextTwin false) owesAll final) :
    Runs terms state (Grammar.sees expected >>= next) (Grammar.sees expected >>= nextTwin)
      owesAll final := by
  refine .ask (fun _ => rfl) ?_
  cases seen : kindOf state.tokens == expected with
  | true => exact yes (eq_of_beq seen)
  | false => exact no (ne_of_beq_false seen)

end Runs

/-! ## Tokens -/

theorem weigh_tail {tokens : List Token} (more : kindOf tokens ≠ .endOfFile) :
    weigh tokens.tail + 1 ≤ weigh tokens := by
  cases tokens with
  | nil => exact absurd rfl more
  | cons token rest =>
    have one := weight_pos token
    rw [weigh_cons, List.tail_cons]
    omega

theorem take?_found {expected : Token.Kind} (front : kindOf state.tokens = expected) :
    take? expected state = .ok (some (Tree.ofToken state.next)) state.behindNext := by
  have asked : sees expected state = .ok true state :=
    congrArg (EStateM.Result.ok · state) (beq_iff_eq.mpr front)
  unfold take?
  rw [bind_of_ok asked]
  rfl

theorem take?_missing {expected : Token.Kind} (front : kindOf state.tokens ≠ expected) :
    take? expected state = .ok none state := by
  have asked : sees expected state = .ok false state :=
    congrArg (EStateM.Result.ok · state) (beq_eq_false_iff_ne.mpr front)
  unfold take?
  rw [bind_of_ok asked]
  rfl

theorem onward_behindNext (state : State) : Onward state state.behindNext := by
  refine ⟨⟨⟨rfl, rfl, rfl⟩, ?_, rfl, id⟩, rfl⟩
  cases tokens : state.tokens with
  | nil => exact ⟨[], by rw [State.behindNext, tokens]; exact .nil⟩
  | cons token rest => exact ⟨[token], by rw [State.behindNext, tokens]; exact .refl _⟩

/-- How much the token in front of a state pays: one where there is a token, and nothing needs
to be paid where the run may be endless. -/
def Pays (terms : Terms) (state : State) (paid : Nat) : Prop :=
  paid = 1 ∧ kindOf state.tokens ≠ .endOfFile ∨ paid = 0 ∧ terms.may .endless

theorem pays_of_kind {kind : Token.Kind} (front : kindOf state.tokens = kind)
    (more : kind ≠ .endOfFile) : Pays terms state 1 :=
  .inl ⟨rfl, front ▸ more⟩

namespace Runs

variable {next nextTwin : α → Production β} {owesAll : β → Nat} {final : β → State → Prop}

theorem take : Runs terms state Grammar.take Grammar.take nothing anything :=
  ⟨rfl, onward_behindNext state, (onward_behindNext state).weigh_le, trivial⟩

/-- A token that is there pays. -/
theorem takeSome (more : kindOf state.tokens ≠ .endOfFile) :
    Runs terms state Grammar.take Grammar.take (fun _ => 1)
      fun tree after => tree = Tree.ofToken state.next ∧ after = state.behindNext :=
  ⟨rfl, onward_behindNext state, weigh_tail more, rfl, rfl⟩

/-- What comes behind a token that is there. -/
theorem behindToken {next nextTwin : Tree.Plain → Production β}
    (ready : Ready terms levels spare state) (more : kindOf state.tokens ≠ .endOfFile)
    (rest : ∀ tree after, Ready terms levels (spare + 1) after →
      Runs terms after (next tree) (nextTwin tree) (fun result => owesAll result - 1) final) :
    Runs terms state (Grammar.take >>= next) (Grammar.take >>= nextTwin) owesAll final :=
  .bind ready (.takeSome more) fun tree after _ ready _ => rest tree after ready

/-- Behind the token in front there is room for one more level of the recursion. -/
theorem taking {next nextTwin : Tree.Plain → Production β}
    (ready : Ready terms levels spare state) (pays : Pays terms state paid)
    (rest : ∀ tree after, Ready terms levels (spare + 1) after →
      Runs terms after (next tree) (nextTwin tree) (fun result => owesAll result - paid) final) :
    Runs terms state (Grammar.take >>= next) (Grammar.take >>= nextTwin) owesAll final := by
  rcases pays with ⟨rfl, more⟩ | ⟨rfl, endless⟩
  · exact .behindToken ready more rest
  · refine .bind ready .take fun tree after _ ready _ => rest tree after ?_
    exact { ready with levels := .inl endless }

/-- The token in front pays for all that is owed. -/
theorem takeFront {next nextTwin : Tree.Plain → Production β}
    (ready : Ready terms levels spare state) (pays : Pays terms state paid)
    (rest : ∀ tree after, Ready terms levels (spare + 1) after →
      Runs terms after (next tree) (nextTwin tree) nothing final) :
    Runs terms state (Grammar.take >>= next) (Grammar.take >>= nextTwin) (fun _ => paid) final :=
  .taking ready pays fun tree after ready =>
    (rest tree after ready).weaken (fun _ => Nat.le_of_eq (Nat.sub_self paid)) fun _ _ => id

/-- The token in front pays for nothing. -/
theorem takeMore {next nextTwin : Tree.Plain → Production β}
    (ready : Ready terms levels spare state) (pays : Pays terms state paid)
    (rest : ∀ tree after, Ready terms levels (spare + 1) after →
      Runs terms after (next tree) (nextTwin tree) owesAll final) :
    Runs terms state (Grammar.take >>= next) (Grammar.take >>= nextTwin) owesAll final :=
  .taking ready pays fun tree after ready =>
    (rest tree after ready).weaken (fun _ => Nat.sub_le _ _) fun _ _ => id

/-- What follows an optional token, with or without it. -/
theorem optional {expected : Token.Kind} {next nextTwin : Option Tree.Plain → Production β}
    (ready : Ready terms levels spare state) (real : (expected == .endOfFile) = false)
    (found : ∀ tree after, Ready terms levels (spare + 1) after →
      Runs terms after (next (some tree)) (nextTwin (some tree))
        (fun result => owesAll result - 1) final)
    (missing : Runs terms state (next none) (nextTwin none) owesAll final) :
    Runs terms state (Grammar.take? expected >>= next) (Grammar.take? expected >>= nextTwin)
      owesAll final := by
  by_cases front : kindOf state.tokens = expected
  · have taken : Runs terms state (Grammar.take? expected) (Grammar.take? expected) (fun _ => 1)
        fun answer _ => answer = some (Tree.ofToken state.next) := by
      refine ⟨rfl, ?_⟩
      rw [take?_found front]
      exact ⟨onward_behindNext state, weigh_tail (front ▸ ne_of_beq_false real), rfl⟩
    refine .bind ready taken fun answer after _ ready same => ?_
    rw [same]
    exact found _ after ready
  · have steps := take?_missing front
    exact ⟨by rw [bind_of_ok steps, bind_of_ok steps]; exact missing.same,
      by rw [bind_of_ok steps]; exact missing.ended⟩

/-- A token that may be there. -/
theorem take? {expected : Token.Kind} :
    Runs terms state (Grammar.take? expected) (Grammar.take? expected) nothing anything := by
  refine ⟨rfl, ?_⟩
  by_cases front : kindOf state.tokens = expected
  · rw [take?_found front]
    exact ⟨onward_behindNext state, (onward_behindNext state).weigh_le, trivial⟩
  · rw [take?_missing front]
    exact ⟨.refl state, Nat.le_refl _, trivial⟩

/-- A change of the state that passes nothing. -/
theorem edit {change : State → State} (onward : Onward state (change state)) :
    Runs terms state (modify change : Production PUnit) (modify change) nothing anything :=
  ⟨rfl, onward, onward.weigh_le, trivial⟩

theorem splitShift :
    Runs terms state Grammar.splitShift Grammar.splitShift nothing anything :=
  .edit ⟨⟨⟨rfl, rfl, rfl⟩, ⟨[], halved_splitFirst _⟩, rfl, id⟩, rfl⟩

/-- What is learned changes nothing that is counted. -/
theorem learnType {name : String} :
    Runs terms state (Grammar.learnType name) (Grammar.learnType name) nothing anything :=
  .edit ⟨⟨⟨rfl, rfl, rfl⟩, ⟨[], .refl _⟩, rfl, id⟩, rfl⟩

theorem learnTemplate {name : String} :
    Runs terms state (Grammar.learnTemplate name) (Grammar.learnTemplate name) nothing anything :=
  .edit ⟨⟨⟨rfl, rfl, rfl⟩, ⟨[], .refl _⟩, rfl, id⟩, rfl⟩

/-- A report takes no token. -/
theorem report {message : Message} {arguments : List String} :
    Runs terms state (Grammar.report message arguments) (Grammar.report message arguments)
      nothing fun _ after => after.tokens = state.tokens :=
  ⟨rfl, ⟨⟨⟨rfl, rfl, rfl⟩, ⟨[], .refl _⟩, rfl, id⟩, rfl⟩, Nat.le_refl _, rfl⟩

/-- A token that is there is passed over. -/
theorem passOver (more : kindOf state.tokens ≠ .endOfFile) :
    Runs terms state (modify State.behindNext) (modify State.behindNext) (fun _ => 1) anything :=
  ⟨rfl, onward_behindNext state, weigh_tail more, trivial⟩

theorem anonymousName :
    Runs terms state Grammar.anonymousName Grammar.anonymousName nothing anything :=
  ⟨rfl, ⟨⟨⟨rfl, rfl, rfl⟩, ⟨[], .refl _⟩, rfl, id⟩, rfl⟩, Nat.le_refl _, trivial⟩

theorem fail {message : Message} {arguments : List String} :
    Runs terms state (Grammar.fail message arguments : Production α)
      (Grammar.fail message arguments) owes post :=
  ⟨rfl, ⟨⟨⟨rfl, rfl, rfl⟩, ⟨[], .refl _⟩, rfl, id⟩, rfl⟩, terms.misfit⟩

theorem expect {expected : Token.Kind} {shown : String} (ready : Ready terms levels spare state)
    (real : (expected == .endOfFile) = false) :
    Runs terms state (Grammar.expect expected shown) (Grammar.expect expected shown)
      (fun _ => 1) anything := by
  unfold Grammar.expect
  split
  · refine .behind ready .splitShift fun _ state ready => ?_
    exact .optional ready real (fun tree after ready => .pure rfl trivial) .fail
  · exact .optional ready real (fun tree after ready => .pure rfl trivial) .fail

theorem reading {value : Except Encoding.Flaw α}
    (admitted : ∀ flaw, value = .error flaw → terms.may (.flaw flaw))
    (rest : ∀ result, value = .ok result →
      Runs terms state (next result) (nextTwin result) owesAll final) :
    Runs terms state (Grammar.reading value >>= next) (Grammar.reading value >>= nextTwin)
      owesAll final := by
  cases value with
  | error flaw => exact ⟨rfl, .refl state, admitted flaw rfl⟩
  | ok result => exact rest result rfl

theorem counting {value : Option α} (admitted : value = none → terms.may .overflow)
    (rest : ∀ result, value = some result →
      Runs terms state (next result) (nextTwin result) owesAll final) :
    Runs terms state (Grammar.counting value >>= next) (Grammar.counting value >>= nextTwin)
      owesAll final := by
  cases value with
  | none => exact ⟨rfl, .refl state, admitted rfl⟩
  | some result => exact rest result rfl

/-! ## Nesting -/

/-- Running in an entered state with the same tokens, and leaving it. -/
theorem within {enter : State → State} {leave : State → State → State}
    (ready : Ready terms levels spare state)
    (tokens : (enter state).tokens = state.tokens) (bound : (enter state).bound = state.bound)
    (room : state.depth ≤ state.maxDepth → (enter state).depth ≤ (enter state).maxDepth)
    (leaves : ∀ inside, Onward (enter state) inside →
      Onward state (leave state inside) ∧ (leave state inside).tokens = inside.tokens)
    (body : Ready terms levels spare (enter state) →
      Runs terms (enter state) production twin owes anything) :
    Runs terms state (Grammar.within enter leave production) (Grammar.within enter leave twin)
      owes anything := by
  have runs := body (ready.entered tokens bound room)
  have same := runs.same
  have ended := runs.ended
  refine ⟨?_, ?_⟩
  · unfold Grammar.within
    rw [same]
  · unfold Grammar.within
    cases result : production (enter state) with
    | error stop after =>
      rw [result] at ended
      exact ⟨(leaves after ended.1).1, ended.2⟩
    | ok value after =>
      rw [result] at ended
      rcases leaves after ended.1 with ⟨onward, left⟩
      refine ⟨onward, ?_, trivial⟩
      rw [left, ← tokens]
      exact ended.2.1

theorem inTemplate (ready : Ready terms levels spare state)
    (body : ∀ state, Ready terms levels spare state → Runs terms state production twin owes anything) :
    Runs terms state (Grammar.inTemplate production) (Grammar.inTemplate twin) owes anything :=
  .within ready rfl rfl id (fun _ onward =>
    ⟨⟨⟨⟨onward.maxDepth, rfl, onward.blockDepth⟩, onward.passed, onward.bound, onward.header⟩,
      onward.depth⟩, rfl⟩) (body _)

theorem inParentheses (ready : Ready terms levels spare state)
    (body : ∀ state, Ready terms levels spare state → Runs terms state production twin owes anything) :
    Runs terms state (Grammar.inParentheses production) (Grammar.inParentheses twin) owes anything :=
  .within ready rfl rfl id (fun _ onward =>
    ⟨⟨⟨⟨onward.maxDepth, rfl, onward.blockDepth⟩, onward.passed, onward.bound, onward.header⟩,
      onward.depth⟩, rfl⟩) (body _)

theorem inBlock (ready : Ready terms levels spare state)
    (body : ∀ state, Ready terms levels spare state → Runs terms state production twin owes anything) :
    Runs terms state (Grammar.inBlock production) (Grammar.inBlock twin) owes anything :=
  .within ready rfl rfl id (fun _ onward =>
    ⟨⟨⟨⟨onward.maxDepth, onward.templateDepth, rfl⟩, onward.passed, onward.bound, onward.header⟩,
      onward.depth⟩, rfl⟩) (body _)

theorem underTemplateHeader (ready : Ready terms levels spare state)
    (body : ∀ state, Ready terms levels spare state → Runs terms state production twin owes anything) :
    Runs terms state (Grammar.underTemplateHeader production) (Grammar.underTemplateHeader twin)
      owes anything :=
  .within ready rfl rfl id (fun _ onward =>
    ⟨⟨⟨⟨onward.maxDepth, onward.templateDepth, onward.blockDepth⟩, onward.passed, onward.bound,
      fun set => nomatch set⟩, onward.depth⟩, rfl⟩) (body _)

end Runs

/-! ## Descending -/

/-- Where there is no room, the state stays as it is but for the report. -/
theorem descend_of_le {state : State} (full : state.maxDepth ≤ state.depth) :
    ∃ after, descend state = .error .misfit after ∧ Onward state after := by
  have runs := descend_eq state
  rw [if_pos full] at runs
  exact ⟨_, runs, ⟨⟨rfl, rfl, rfl⟩, ⟨[], .refl _⟩, rfl, id⟩, rfl⟩

theorem passes_deeper (state : State) : Passes state state.deeper :=
  ⟨⟨rfl, rfl, rfl⟩, ⟨[], .refl _⟩, rfl, id⟩

/-- What is passed from a state at another depth is passed once the depth is restored. -/
theorem Passes.restored {outside inside : State} (passes : Passes outside inside) :
    Onward outside (restoreDepth outside inside) :=
  ⟨⟨⟨passes.maxDepth, passes.templateDepth, passes.blockDepth⟩, passes.passed, passes.bound,
    passes.header⟩, rfl⟩

/-- A nested production runs one level deeper, where there is room. -/
theorem Runs.nested (ready : Ready terms levels spare state)
    (body : Ready terms levels spare state.deeper →
      Runs terms state.deeper production twin owes anything) :
    Runs terms state (Grammar.nested production) (Grammar.nested twin) owes anything := by
  unfold Grammar.nested Grammar.within
  by_cases free : state.depth < state.maxDepth
  · have runs := body (ready.deeper free)
    have descends : descend (id state) = .ok () state.deeper := descend_of_lt free
    have same := runs.same
    have ended := runs.ended
    refine ⟨?_, ?_⟩
    · rw [bind_of_ok descends, bind_of_ok descends, same]
    · rw [bind_of_ok descends]
      cases result : production state.deeper with
      | error stop after =>
        rw [result] at ended
        exact ⟨((passes_deeper state).trans ended.1.toPasses).restored, ended.2⟩
      | ok value after =>
        rw [result] at ended
        exact ⟨((passes_deeper state).trans ended.1.toPasses).restored, ended.2.1, trivial⟩
  · rcases descend_of_le (Nat.le_of_not_lt free) with ⟨after, stops, onward⟩
    have stops : descend (id state) = .error .misfit after := stops
    refine ⟨?_, ?_⟩
    · rw [bind_of_error stops, bind_of_error stops]
    · rw [bind_of_error stops]
      exact ⟨onward.toPasses.restored, terms.misfit⟩

end Grammar
end CppNames
