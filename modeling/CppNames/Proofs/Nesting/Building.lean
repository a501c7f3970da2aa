import CppNames.Grammar.Productions
import CppNames.Proofs.Grammar.Reading
import CppNames.Proofs.Nesting.Tree

namespace CppNames
namespace Grammar

/-!
# What productions build at a level

A production runs at some level, with some room for further levels up to the limit.  `Builds`
says of a production at a given room that the value it answers satisfies a postcondition, and
that it leaves the level as it found it, whether it answers or stops.

The rules follow the combinators of the parser.  A nested production runs with one level less of
room and stops where there is none.  A chain takes one level for each of its links and gives
them back in its end, so a link of it does not leave the level as it was; `Climbs` is the
judgement for the turns of its loop.
-/

/-! ## Levels -/

/-- The same counts apart from the level of nesting. -/
structure Beside (before after : State) : Prop where
  maxDepth : after.maxDepth = before.maxDepth
  templateDepth : after.templateDepth = before.templateDepth
  blockDepth : after.blockDepth = before.blockDepth

/-- The same level of nesting, of template argument lists and of blocks. -/
structure Level (before after : State) : Prop extends Beside before after where
  depth : after.depth = before.depth

/-- A level with some room below the limit. -/
structure State.At (limit room : Nat) (state : State) : Prop where
  maxDepth : state.maxDepth = limit
  depth : state.depth + room = limit

variable {first second third : State} {tally : Tally} {limit room less : Nat}

theorem Beside.trans (early : Beside first second) (late : Beside second third) :
    Beside first third where
  maxDepth := late.maxDepth.trans early.maxDepth
  templateDepth := late.templateDepth.trans early.templateDepth
  blockDepth := late.blockDepth.trans early.blockDepth

theorem Level.refl (state : State) : Level state state := ⟨⟨rfl, rfl, rfl⟩, rfl⟩

theorem Level.trans (early : Level first second) (late : Level second third) :
    Level first third where
  toBeside := early.toBeside.trans late.toBeside
  depth := late.depth.trans early.depth

theorem Level.at_of (level : Level first second) (begins : first.At limit room) :
    second.At limit room where
  maxDepth := level.maxDepth.trans begins.maxDepth
  depth := level.depth ▸ begins.depth

/-- What is beside a state is at its level once the depth is restored. -/
theorem Beside.restored (beside : Beside first second) : Level first (restoreDepth first second) :=
  ⟨⟨beside.maxDepth, beside.templateDepth, beside.blockDepth⟩, rfl⟩

theorem State.At.room_le {state : State} (begins : state.At limit room) : room ≤ limit := by
  have sum := begins.depth
  omega

/-- One level deeper. -/
def State.deeper (state : State) : State := { state with depth := state.depth + 1 }

theorem State.At.deeper {state : State} (begins : state.At limit (room + 1)) :
    state.deeper.At limit room where
  maxDepth := begins.maxDepth
  depth := by
    have sum := begins.depth
    change state.depth + 1 + room = limit
    omega

theorem beside_deeper (state : State) : Beside state state.deeper := ⟨rfl, rfl, rfl⟩

/-! ## Productions at a level -/

/-- How a production may end that began in a given state. -/
def Settled {α : Type} (before : State) (post : α → Prop) :
    EStateM.Result Stop State α → Prop
  | .ok value after => post value ∧ Level before after
  | .error _ after => Level before after

/-- At every level with this room, a production answers a value of a kind or stops, and leaves
the level as it was. -/
def Builds {α : Type} (limit room : Nat) (production : Production α) (post : α → Prop) : Prop :=
  ∀ state : State, state.At limit room → Settled state post (production state)

variable {α β : Type} {production : Production α} {post weaker : α → Prop}

theorem Settled.weaken {before : State} {result : EStateM.Result Stop State α}
    (settled : Settled before post result) (implies : ∀ value, post value → weaker value) :
    Settled before weaker result := by
  cases result with
  | error stop after => exact settled
  | ok value after => exact ⟨implies value settled.1, settled.2⟩

theorem Settled.behind {result : EStateM.Result Stop State α} (level : Level first second)
    (settled : Settled second post result) : Settled first post result := by
  cases result with
  | error stop after => exact level.trans settled
  | ok value after => exact ⟨settled.1, level.trans settled.2⟩

namespace Builds

theorem weaken (builds : Builds limit room production post)
    (implies : ∀ value, post value → weaker value) : Builds limit room production weaker :=
  fun state begins => (builds state begins).weaken implies

/-- The room is no more than the limit. -/
theorem ofRoom (builds : room ≤ limit → Builds limit room production post) :
    Builds limit room production post :=
  fun state begins => builds begins.room_le state begins

theorem pure {value : α} (holds : post value) :
    Builds limit room (Pure.pure value : Production α) post :=
  fun state _ => ⟨holds, .refl state⟩

theorem throw {stop : Stop} :
    Builds limit room (MonadExcept.throw stop : Production α) post :=
  fun state _ => .refl state

theorem bind {next : α → Production β} {final : β → Prop}
    (begins : Builds limit room production post)
    (rest : ∀ value, post value → Builds limit room (next value) final) :
    Builds limit room (production >>= next) final := by
  intro state at_
  have run := begins state at_
  cases result : production state with
  | error stop after =>
    rw [bind_of_error result]
    rw [result] at run
    exact run
  | ok value middle =>
    rw [bind_of_ok result]
    rw [result] at run
    exact .behind run.2 (rest value run.1 middle (run.2.at_of at_))

/-- What comes behind a production of whose answer nothing is asked. -/
theorem behind {next : α → Production β} {final : β → Prop}
    (begins : Builds limit room production fun _ => True)
    (rest : ∀ value, Builds limit room (next value) final) :
    Builds limit room (production >>= next) final :=
  .bind begins fun value _ => rest value

theorem map {function : α → β} {final : β → Prop}
    (builds : Builds limit room production fun value => final (function value)) :
    Builds limit room (function <$> production) final := by
  intro state begins
  have run := builds state begins
  change Settled state final (EStateM.map function production state)
  unfold EStateM.map
  cases result : production state with
  | error stop after => rw [result] at run; exact run
  | ok value after => rw [result] at run; exact run

/-- What comes behind one of two parts. -/
theorem bindIf {condition : Prop} [Decidable condition] {other : Production α}
    {next : α → Production β} {final : β → Prop} (yes : Builds limit room production post)
    (no : Builds limit room other post)
    (rest : ∀ value, post value → Builds limit room (next value) final) :
    Builds limit room (if condition then production >>= next else other >>= next) final := by
  by_cases holds : condition
  · rw [if_pos holds]
    exact .bind yes rest
  · rw [if_neg holds]
    exact .bind no rest

/-! ## Looking at tokens -/

/-- A question about the state, which changes nothing. -/
theorem ask {question : State → α} {next : α → Production β} {final : β → Prop}
    {inquiry : Production α} (same : ∀ state, inquiry state = .ok (question state) state)
    (rest : ∀ answer, Builds limit room (next answer) final) :
    Builds limit room (inquiry >>= next) final := by
  intro state begins
  rw [bind_of_ok (same state)]
  exact rest _ state begins

theorem asks {question : State → Bool} {next : Bool → Production β} {final : β → Prop}
    (rest : ∀ answer, Builds limit room (next answer) final) :
    Builds limit room (Grammar.asks question >>= next) final :=
  .ask (fun _ => rfl) rest

theorem kind {next : Token.Kind → Production β} {final : β → Prop}
    (rest : ∀ found, Builds limit room (next found) final) :
    Builds limit room (Grammar.kind >>= next) final :=
  .ask (fun _ => rfl) rest

theorem kindBehind {next : Token.Kind → Production β} {final : β → Prop}
    (rest : ∀ found, Builds limit room (next found) final) :
    Builds limit room (Grammar.kindBehind >>= next) final :=
  .ask (fun _ => rfl) rest

theorem sees {expected : Token.Kind} {next : Bool → Production β} {final : β → Prop}
    (yes : Builds limit room (next true) final) (no : Builds limit room (next false) final) :
    Builds limit room (Grammar.sees expected >>= next) final := by
  refine .ask (fun _ => rfl) fun answer => ?_
  cases answer with
  | true => exact yes
  | false => exact no

/-- What comes behind one of two parts, told apart by the next token. -/
theorem seesBind {expected : Token.Kind} {other : Production α} {next : α → Production β}
    {final : β → Prop} (yes : Builds limit room production post)
    (no : Builds limit room other post)
    (rest : ∀ value, post value → Builds limit room (next value) final) :
    Builds limit room (Grammar.sees expected >>= fun seen =>
      if seen then production >>= next else other >>= next) final :=
  .sees (.bind yes rest) (.bind no rest)

/-! ## Tokens -/

/-- A change of the state that concerns no level. -/
theorem edit {change : State → State} (level : ∀ state, Level state (change state)) :
    Builds limit room (modify change : Production PUnit) fun _ => True :=
  fun state _ => ⟨trivial, level state⟩

theorem take : Builds limit room Grammar.take Tree.IsToken :=
  fun state _ => ⟨⟨state.next, rfl⟩, ⟨rfl, rfl, rfl⟩, rfl⟩

/-- A token that may be there. -/
theorem take? {expected : Token.Kind} :
    Builds limit room (Grammar.take? expected) fun found => ∀ tree ∈ found, Tree.IsToken tree := by
  refine .sees (.bind .take fun tree token => .pure ?_) (.pure fun tree found => nomatch found)
  intro other found
  cases found
  exact token

/-- What follows an optional token, with or without it. -/
theorem optional {expected : Token.Kind} {next : Option Tree.Plain → Production β}
    {final : β → Prop}
    (found : ∀ tree, Tree.IsToken tree → Builds limit room (next (some tree)) final)
    (missing : Builds limit room (next none) final) :
    Builds limit room (Grammar.take? expected >>= next) final := by
  refine .bind .take? fun answer tokens => ?_
  cases answer with
  | none => exact missing
  | some tree => exact found tree (tokens tree rfl)

theorem splitShift : Builds limit room Grammar.splitShift fun _ => True :=
  .edit fun _ => ⟨⟨rfl, rfl, rfl⟩, rfl⟩

theorem report {message : Message} {arguments : List String} :
    Builds limit room (Grammar.report message arguments) fun _ => True :=
  fun _ _ => ⟨trivial, ⟨rfl, rfl, rfl⟩, rfl⟩

theorem fail {message : Message} {arguments : List String} :
    Builds limit room (Grammar.fail message arguments : Production α) post :=
  .behind .report fun _ => .throw

theorem expect {expected : Token.Kind} {shown : String} :
    Builds limit room (Grammar.expect expected shown) Tree.IsToken := by
  unfold Grammar.expect
  split
  · exact .behind .splitShift fun _ => .optional (fun tree token => .pure token) .fail
  · exact .optional (fun tree token => .pure token) .fail

theorem reading {value : Except Encoding.Flaw α} {next : α → Production β} {final : β → Prop}
    (rest : ∀ result, Builds limit room (next result) final) :
    Builds limit room (Grammar.reading value >>= next) final := by
  cases value with
  | error flaw => exact .behind .throw rest
  | ok result => exact rest result

theorem counting {value : Option α} {next : α → Production β} {final : β → Prop}
    (rest : ∀ result, Builds limit room (next result) final) :
    Builds limit room (Grammar.counting value >>= next) final := by
  cases value with
  | none => exact .behind .throw rest
  | some result => exact rest result

/-! ## Nesting -/

/-- Running in an entered state at the same depth, and leaving it. -/
theorem within {enter : State → State} {leave : State → State → State}
    (enters : ∀ state, (enter state).maxDepth = state.maxDepth ∧
      (enter state).depth = state.depth)
    (leaves : ∀ outside inside, Level (enter outside) inside → Level outside (leave outside inside))
    (body : Builds limit room production post) :
    Builds limit room (Grammar.within enter leave production) post := by
  intro state begins
  have entered : (enter state).At limit room :=
    ⟨(enters state).1.trans begins.maxDepth, (enters state).2 ▸ begins.depth⟩
  have run := body (enter state) entered
  unfold Grammar.within
  cases result : production (enter state) with
  | error stop after =>
    rw [result] at run
    exact leaves state after run
  | ok value after =>
    rw [result] at run
    exact ⟨run.1, leaves state after run.2⟩

theorem inTemplate (body : Builds limit room production post) :
    Builds limit room (Grammar.inTemplate production) post :=
  .within (fun _ => ⟨rfl, rfl⟩)
    (fun _ _ level => ⟨⟨level.maxDepth, rfl, level.blockDepth⟩, level.depth⟩) body

theorem inParentheses (body : Builds limit room production post) :
    Builds limit room (Grammar.inParentheses production) post :=
  .within (fun _ => ⟨rfl, rfl⟩)
    (fun _ _ level => ⟨⟨level.maxDepth, rfl, level.blockDepth⟩, level.depth⟩) body

theorem inBlock (body : Builds limit room production post) :
    Builds limit room (Grammar.inBlock production) post :=
  .within (fun _ => ⟨rfl, rfl⟩)
    (fun _ _ level => ⟨⟨level.maxDepth, level.templateDepth, rfl⟩, level.depth⟩) body

theorem underTemplateHeader (body : Builds limit room production post) :
    Builds limit room (Grammar.underTemplateHeader production) post :=
  .within (fun _ => ⟨rfl, rfl⟩)
    (fun _ _ level => ⟨⟨level.maxDepth, level.templateDepth, level.blockDepth⟩, level.depth⟩) body

end Builds

/-- Where there is room, going deeper succeeds. -/
theorem descend_of_lt {state : State} (free : state.depth < state.maxDepth) :
    descend state = .ok () state.deeper :=
  (descend_eq state).trans (if_neg (Nat.not_le_of_lt free))

theorem descend_of_room {state : State} (begins : state.At limit (room + 1)) :
    descend state = .ok () state.deeper := by
  refine descend_of_lt ?_
  rw [begins.maxDepth, ← begins.depth]
  omega

/-- Where there is none, it stops. -/
theorem descend_of_full {state : State} (begins : state.At limit 0) :
    ∃ after, descend state = .error .misfit after ∧ Level state after := by
  have full : state.maxDepth ≤ state.depth := by
    rw [begins.maxDepth, ← begins.depth]
    omega
  have runs := descend_eq state
  rw [if_pos full] at runs
  exact ⟨_, runs, ⟨rfl, rfl, rfl⟩, rfl⟩

/-- A nested production runs with one level less of room. -/
theorem Builds.nested (body : ∀ less, room = less + 1 → Builds limit less production post) :
    Builds limit room (Grammar.nested production) post := by
  intro state begins
  unfold Grammar.nested Grammar.within
  cases room with
  | zero =>
    rcases descend_of_full begins with ⟨after, stops, level⟩
    have runs : (descend >>= fun _ => production) (id state) = .error .misfit after :=
      bind_of_error stops
    rw [runs]
    exact level.toBeside.restored
  | succ less =>
    have runs : (descend >>= fun _ => production) (id state) = production state.deeper :=
      bind_of_ok (descend_of_room begins)
    rw [runs]
    have run := body less rfl state.deeper begins.deeper
    cases result : production state.deeper with
    | error stop after =>
      rw [result] at run
      exact ((beside_deeper state).trans run.toBeside).restored
    | ok value after =>
      rw [result] at run
      exact ⟨run.1, ((beside_deeper state).trans run.2.toBeside).restored⟩

/-- A production whose tree rises less. -/
theorem Builds.higher {body : Production Tree.Plain} {height more : Nat}
    (builds : Builds limit room body (Tree.Rises tally limit room height)) (le : height ≤ more) :
    Builds limit room body (Tree.Rises tally limit room more) :=
  builds.weaken fun _ rises => rises.mono le

/-- What rises by no more than a level may bring does not rise once it is nested. -/
theorem Builds.nestedRises (height : Nat → Nat) {body : Production Tree.Plain}
    (low : ∀ links, links ≤ tally.links limit → height links ≤ 3 * tally.links limit + 8)
    (builds : ∀ less, Builds limit less body
      (Tree.Rises tally limit less (height (tally.links less)))) :
    Builds limit room (Grammar.nested body) (Tree.Rises tally limit room 0) := by
  refine .ofRoom fun le => .nested fun less same => ?_
  subst same
  have smaller := tally.links_mono (Nat.le_of_succ_le le)
  exact (builds less).weaken fun _ rises => rises.outer (low _ smaller) (Nat.lt_succ_self less)

/-! ## Repetition -/

/-- What holds of the value of a turn. -/
def InTurn (again done : α → Prop) : Turn α → Prop
  | .again value => again value
  | .done value => done value

namespace Builds

theorem repeatWithin (invariant : α → Prop) {step : α → Production (Turn α)}
    (turn : ∀ value, invariant value → Builds limit room (step value) (InTurn invariant post))
    (count : Nat) {value : α} (holds : invariant value) :
    Builds limit room (Grammar.repeatWithin step count value) post := by
  induction count generalizing value with
  | zero => exact .throw
  | succ count ih =>
    refine .bind (turn value holds) fun ended inTurn => ?_
    cases ended with
    | again next => exact ih inTurn
    | done last => exact .pure inTurn

/-- A loop whose turns keep an invariant. -/
theorem repeatFrom (invariant : α → Prop) {start : α} {step : α → Production (Turn α)}
    (begins : invariant start)
    (turn : ∀ value, invariant value → Builds limit room (step value) (InTurn invariant post)) :
    Builds limit room (Grammar.repeatFrom start step) post :=
  .ask (fun _ => rfl) fun _ => repeatWithin invariant turn _ begins

/-- Items and the commas between them. -/
theorem commaSeparated {item : Production (List Tree.Plain)} {height : Nat}
    (builds : Builds limit room item (Tree.AllRise tally limit room height)) :
    Builds limit room (Grammar.commaSeparated item) (Tree.AllRise tally limit room height) := by
  refine .repeatFrom (Tree.AllRise tally limit room height) Tree.allRise_nil fun items all => ?_
  refine .bind builds fun next allNext => ?_
  refine .optional (fun comma token => .pure ?_) (.pure (all.append allNext))
  exact (all.append allNext).append token.rises.single

/-- The tokens in front whose kinds pass a test. -/
theorem takeRun {test : Token.Kind → Bool} {height : Nat} :
    Builds limit room (Grammar.takeRun test) (Tree.AllRise tally limit room height) := by
  refine .repeatFrom (Tree.AllRise tally limit room height) Tree.allRise_nil fun items all => ?_
  refine .kind fun found => ?_
  split
  · exact .bind .take fun tree token => .pure (all.append token.rises.single)
  · exact .pure all

/-! ## Names and resuming -/

theorem learnType (name : String) : Builds limit room (Grammar.learnType name) fun _ => True :=
  .edit fun _ => ⟨⟨rfl, rfl, rfl⟩, rfl⟩

theorem learnTemplate (name : String) :
    Builds limit room (Grammar.learnTemplate name) fun _ => True :=
  .edit fun _ => ⟨⟨rfl, rfl, rfl⟩, rfl⟩

theorem anonymousName : Builds limit room Grammar.anonymousName fun _ => True :=
  .behind (.edit fun _ => ⟨⟨rfl, rfl, rfl⟩, rfl⟩) fun _ =>
    .ask (fun _ => rfl) fun _ => .pure trivial

/-- Where a production stops at a misfit there is no tree. -/
theorem recovering {body : Production Tree.Plain} {height : Nat}
    (builds : Builds limit room body (Tree.Rises tally limit room height)) :
    Builds limit room (Grammar.recovering body) (Tree.AllRise tally limit room height) := by
  intro state begins
  have run := builds state begins
  unfold Grammar.recovering
  cases result : body state with
  | ok tree after =>
    rw [result] at run
    exact ⟨run.1.single, run.2⟩
  | error stop after =>
    rw [result] at run
    cases stop with
    | misfit => exact ⟨Tree.allRise_nil,
        ⟨run.maxDepth, run.templateDepth, run.blockDepth⟩, run.depth⟩
    | _ => exact run

end Builds

/-! ## Chains -/

/-- How a turn of a chain's loop may end that began in a given state with some room. -/
def Climbed (chain : Nat → α → Prop) (room : Nat) (before : State) :
    EStateM.Result Stop State (Turn α) → Prop
  | .ok (.done value) after => chain room value ∧ Level before after
  | .ok (.again value) after =>
    ∃ less, room = less + 1 ∧ chain less value ∧ Level before.deeper after
  | .error _ after => Beside before after

/-- A turn of a chain's loop ends the chain, or makes a link one level deeper. -/
def Climbs (limit room : Nat) (chain : Nat → α → Prop) (turn : Production (Turn α)) : Prop :=
  ∀ state : State, state.At limit room → Climbed chain room state (turn state)

namespace Climbs

variable {chain : Nat → α → Prop}

theorem done {value : α} (holds : chain room value) :
    Climbs limit room chain (Pure.pure (.done value)) :=
  fun state _ => ⟨holds, .refl state⟩

theorem ask {question : State → β} {next : β → Production (Turn α)} {inquiry : Production β}
    (same : ∀ state, inquiry state = .ok (question state) state)
    (rest : ∀ answer, Climbs limit room chain (next answer)) :
    Climbs limit room chain (inquiry >>= next) := by
  intro state begins
  rw [bind_of_ok (same state)]
  exact rest _ state begins

/-- A link is made one level deeper. -/
theorem link {made : Unit → Production (Turn α)}
    (builds : ∀ less, room = less + 1 → Builds limit less (made ())
      (InTurn (chain less) fun _ => False)) :
    Climbs limit room chain (descend >>= made) := by
  intro state begins
  cases room with
  | zero =>
    rcases descend_of_full begins with ⟨after, stops, level⟩
    rw [bind_of_error stops]
    exact level.toBeside
  | succ less =>
    rw [bind_of_ok (descend_of_room begins)]
    have run := builds less rfl state.deeper begins.deeper
    cases result : made () state.deeper with
    | error stop after =>
      rw [result] at run
      exact (beside_deeper state).trans run.toBeside
    | ok turn after =>
      rw [result] at run
      cases turn with
      | again value => exact ⟨less, rfl, run.1, run.2⟩
      | done value => exact run.1.elim

end Climbs

/-- What a chain ends with, at any room below the first. -/
theorem climbed_repeatWithin {chain : Nat → α → Prop} {step : α → Production (Turn α)}
    (links : ∀ less value, chain less value → Climbs limit less chain (step value))
    (count : Nat) {value : α} (holds : chain room value) {state : State}
    (begins : state.At limit room) :
    match repeatWithin step count value state with
    | .ok last after => (∃ less, less ≤ room ∧ chain less last) ∧ Beside state after
    | .error _ after => Beside state after := by
  induction count generalizing room value state with
  | zero => exact (Level.refl state).toBeside
  | succ count ih =>
    have run := links room value holds state begins
    unfold repeatWithin
    cases result : step value state with
    | error stop after =>
      rw [bind_of_error result]
      rw [result] at run
      exact run
    | ok turn middle =>
      rw [bind_of_ok result]
      rw [result] at run
      cases turn with
      | done last => exact ⟨⟨room, Nat.le_refl _, run.1⟩, run.2.toBeside⟩
      | again next =>
        rcases run with ⟨less, rfl, holdsNext, level⟩
        have rest := ih holdsNext (level.at_of begins.deeper)
        have beside := (beside_deeper state).trans level.toBeside
        dsimp only at rest ⊢
        cases ends : repeatWithin step count next middle with
        | error stop after =>
          rw [ends] at rest
          exact beside.trans rest
        | ok last after =>
          rw [ends] at rest
          rcases rest with ⟨⟨below, le, holdsLast⟩, besideLast⟩
          exact ⟨⟨below, Nat.le_succ_of_le le, holdsLast⟩, beside.trans besideLast⟩

/-- A chain whose links each take one level. -/
theorem Builds.chained {chain : Nat → α → Prop} {step : α → Production (Turn α)}
    (begins : Builds limit room production (chain room))
    (links : ∀ less value, chain less value → Climbs limit less chain (step value))
    (ends : ∀ less value, less ≤ room → chain less value → post value) :
    Builds limit room (Grammar.chained do Grammar.repeatFrom (← production) step) post := by
  intro state at_
  have run := begins state at_
  unfold Grammar.chained Grammar.within
  cases result : production state with
  | error stop after =>
    rw [bind_of_error (show production (id state) = _ from result)]
    rw [result] at run
    exact run.toBeside.restored
  | ok value middle =>
    rw [bind_of_ok (show production (id state) = _ from result)]
    rw [result] at run
    have loop := climbed_repeatWithin links middle.bound run.1 (run.2.at_of at_)
    change match (match Grammar.repeatWithin step middle.bound value middle with
      | .ok last inside => .ok last (restoreDepth state inside)
      | .error stop inside => .error stop (restoreDepth state inside) :
        EStateM.Result Stop State α) with
      | .ok last after => post last ∧ Level state after
      | .error _ after => Level state after
    cases ran : Grammar.repeatWithin step middle.bound value middle with
    | error stop after =>
      rw [ran] at loop
      exact (run.2.toBeside.trans loop).restored
    | ok last after =>
      rw [ran] at loop
      rcases loop with ⟨⟨less, le, holds⟩, beside⟩
      exact ⟨ends less last le holds, (run.2.toBeside.trans beside).restored⟩

end Grammar
end CppNames
