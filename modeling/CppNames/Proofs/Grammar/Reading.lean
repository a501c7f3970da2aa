import CppNames.Grammar.Cursor
import Mathlib.Data.List.Sublists

namespace CppNames
namespace Grammar

/-!
# What productions read

A production that answers a value has read some tokens for it.  `Reads` says this of one
production: from every place where it may begin, it either answers a value for which some
tokens are read, or it stops.  What a production passes over but does not read was reported.

A `>>` may be split on the way, so tokens are compared up to splitting.  The rules below
follow the combinators of the parser.  A postcondition speaks of the value and the tokens
read for it.  In a sequence the later parts are shown to complete what the earlier parts
read, so that a proof follows its production line by line.
-/

/-! ## Splitting -/

/-- The same tokens, some `>>` of the first list being split in the second. -/
inductive Halved : List Token → List Token → Prop where
  | nil : Halved [] []
  | keep (token : Token) {whole split : List Token} :
    Halved whole split → Halved (token :: whole) (token :: split)
  | halve {token left right : Token} {whole split : List Token} :
    token.halves? = some (left, right) → Halved whole split →
    Halved (token :: whole) (left :: right :: split)

theorem Halved.refl (tokens : List Token) : Halved tokens tokens := by
  induction tokens with
  | nil => exact .nil
  | cons token rest ih => exact .keep token ih

theorem Halved.append {whole split wholeBehind splitBehind : List Token}
    (front : Halved whole split) (back : Halved wholeBehind splitBehind) :
    Halved (whole ++ wholeBehind) (split ++ splitBehind) := by
  induction front with
  | nil => exact back
  | keep token _ ih => exact .keep token ih
  | halve halves _ ih => exact .halve halves ih

theorem Halved.length_le {whole split : List Token} (halved : Halved whole split) :
    whole.length ≤ split.length := by
  induction halved with
  | nil => exact Nat.le_refl _
  | keep token _ ih => exact Nat.succ_le_succ ih
  | halve halves _ ih => exact Nat.le_succ_of_le (Nat.succ_le_succ ih)

theorem eq_of_halves? {token left right : Token} (halves : token.halves? = some (left, right)) :
    token.kind = .greaterGreater ∧ left = ⟨.greater, ">", token.pos⟩ ∧
      right = ⟨.greater, ">", token.pos + 1⟩ := by
  unfold Token.halves? at halves
  split at halves
  · next shift =>
    cases halves
    exact ⟨shift, rfl, rfl⟩
  · cases halves

/-- The halves of a `>>` are not split again. -/
theorem halves?_of_halves? {token left right : Token} (halves : token.halves? = some (left, right)) :
    left.halves? = none ∧ right.halves? = none := by
  rcases eq_of_halves? halves with ⟨_, rfl, rfl⟩
  exact ⟨rfl, rfl⟩

/-- What holds of tokens, and of the halves of every token of which it holds, still holds when
some are split. -/
theorem Halved.all {P : Token → Prop} {whole split : List Token} (halved : Halved whole split)
    (halves : ∀ token : Token, token.kind = .greaterGreater → P token →
      P ⟨.greater, ">", token.pos⟩ ∧ P ⟨.greater, ">", token.pos + 1⟩)
    (all : ∀ token ∈ whole, P token) : ∀ token ∈ split, P token := by
  induction halved with
  | nil => exact all
  | keep token _ ih =>
    rcases List.forall_mem_cons.mp all with ⟨first, rest⟩
    exact List.forall_mem_cons.mpr ⟨first, ih rest⟩
  | @halve token left right whole split parts _ ih =>
    rcases List.forall_mem_cons.mp all with ⟨first, rest⟩
    rcases eq_of_halves? parts with ⟨shift, rfl, rfl⟩
    rcases halves token shift first with ⟨front, back⟩
    exact List.forall_mem_cons.mpr ⟨front, List.forall_mem_cons.mpr ⟨back, ih rest⟩⟩

theorem Halved.trans {first second third : List Token} (front : Halved first second)
    (back : Halved second third) : Halved first third := by
  induction front generalizing third with
  | nil => exact back
  | keep token _ ih =>
    cases back with
    | keep _ rest => exact .keep token (ih rest)
    | halve halves rest => exact .halve halves (ih rest)
  | halve halves _ ih =>
    have unsplit := halves?_of_halves? halves
    cases back with
    | halve again _ => rw [unsplit.1] at again; cases again
    | keep _ rest =>
      cases rest with
      | halve again _ => rw [unsplit.2] at again; cases again
      | keep _ rest => exact .halve halves (ih rest)

theorem halved_splitFirst (tokens : List Token) : Halved tokens (splitFirst tokens) := by
  cases tokens with
  | nil => exact .nil
  | cons token rest =>
    cases halves : token.halves? with
    | none => simpa only [splitFirst, halves] using Halved.refl (token :: rest)
    | some pair => simpa only [splitFirst, halves] using Halved.halve halves (.refl rest)

/-! ## Progress -/

/-- What happens to the tokens and the reports from one state to a later one.  The tokens
passed over are read unless something was reported. -/
structure Progress (before after : State) (read : List Token) : Prop where
  passed : ∃ passed, Halved before.tokens (passed ++ after.tokens) ∧ read.Sublist passed ∧
    (after.misfits.length = before.misfits.length → read = passed)
  misfits : before.misfits.length ≤ after.misfits.length

/-- What happens until a production stops.  A misfit was reported. -/
structure Stopped (stop : Stop) (before after : State) : Prop where
  passed : ∃ passed, Halved before.tokens (passed ++ after.tokens)
  misfits : before.misfits.length ≤ after.misfits.length
  reported : stop = .misfit → before.misfits.length < after.misfits.length

theorem Progress.ofTokens {before after : State} (tokens : Halved before.tokens after.tokens)
    (misfits : after.misfits = before.misfits) : Progress before after [] where
  passed := ⟨[], tokens, List.Sublist.refl _, fun _ => rfl⟩
  misfits := by rw [misfits]

theorem Progress.refl (state : State) : Progress state state [] :=
  .ofTokens (.refl _) rfl

theorem Halved.through {first second third front back : List Token}
    (early : Halved first (front ++ second)) (late : Halved second (back ++ third)) :
    Halved first ((front ++ back) ++ third) := by
  rw [List.append_assoc]
  exact early.trans ((Halved.refl front).append late)

theorem Progress.trans {first second third : State} {front back : List Token}
    (early : Progress first second front) (late : Progress second third back) :
    Progress first third (front ++ back) where
  passed := by
    rcases early.passed with ⟨passed, halved, sublist, whole⟩
    rcases late.passed with ⟨passedLate, halvedLate, sublistLate, wholeLate⟩
    refine ⟨passed ++ passedLate, halved.through halvedLate, sublist.append sublistLate, ?_⟩
    intro same
    have lower := early.misfits
    have upper := late.misfits
    rw [whole (by omega), wholeLate (by omega)]
  misfits := Nat.le_trans early.misfits late.misfits

theorem Progress.stopped {first second third : State} {front : List Token} {stop : Stop}
    (early : Progress first second front) (late : Stopped stop second third) :
    Stopped stop first third where
  passed := by
    rcases early.passed with ⟨passed, halved, _, _⟩
    rcases late.passed with ⟨passedLate, halvedLate⟩
    exact ⟨passed ++ passedLate, halved.through halvedLate⟩
  misfits := Nat.le_trans early.misfits late.misfits
  reported same := Nat.lt_of_le_of_lt early.misfits (late.reported same)

/-! ## Productions that read -/

/-- A place at which a production may begin, given by the tokens in front. -/
abbrev Where := List Token → Prop

/-- Every place. -/
def anywhere : Where := fun _ => True

/-- A place in front of a token of a given kind. -/
def inFrontOf (kind : Token.Kind) : Where := fun tokens => kindOf tokens = kind

/-- A place in front of some token. -/
def notAtEnd : Where := fun tokens => kindOf tokens ≠ .endOfFile

theorem notAtEnd_of_kindOf {tokens : List Token} {kind : Token.Kind} (same : kindOf tokens = kind)
    (more : kind ≠ .endOfFile) : notAtEnd tokens := by
  unfold notAtEnd
  rw [same]
  exact more

/-- How a production may end that began in a given state. -/
def Ends {α : Type} (before : State) (post : α → List Token → Prop) :
    EStateM.Result Stop State α → Prop
  | .ok value after => ∃ read, post value read ∧ Progress before after read
  | .error stop after => Stopped stop before after

/-- From every place of a kind, a production answers a value for which tokens are read, or
stops. -/
def Reads {α : Type} (place : Where) (production : Production α)
    (post : α → List Token → Prop) : Prop :=
  ∀ state, place state.tokens → Ends state post (production state)

variable {α β : Type} {place other : Where} {production : Production α}
  {post weaker : α → List Token → Prop}

theorem Ends.weaken {before : State} {result : EStateM.Result Stop State α}
    (ends : Ends before post result)
    (implies : ∀ value read, post value read → weaker value read) :
    Ends before weaker result := by
  cases result with
  | error stop after => exact ends
  | ok value after =>
    rcases ends with ⟨read, holds, progress⟩
    exact ⟨read, implies value read holds, progress⟩

/-- What ends behind some progress, seen from the front. -/
theorem Ends.behind {first second : State} {read : List Token}
    {result : EStateM.Result Stop State α} (progress : Progress first second read)
    (ends : Ends second (fun value readBehind => post value (read ++ readBehind)) result) :
    Ends first post result := by
  cases result with
  | error stop after => exact progress.stopped ends
  | ok value after =>
    rcases ends with ⟨readBehind, holds, progressBehind⟩
    exact ⟨read ++ readBehind, holds, progress.trans progressBehind⟩

theorem bind_of_ok {next : α → Production β} {state after : State} {value : α}
    (runs : production state = .ok value after) : (production >>= next) state = next value after := by
  change EStateM.bind production next state = _
  unfold EStateM.bind
  rw [runs]

theorem bind_of_error {next : α → Production β} {state after : State} {stop : Stop}
    (runs : production state = .error stop after) :
    (production >>= next) state = .error stop after := by
  change EStateM.bind production next state = _
  unfold EStateM.bind
  rw [runs]

namespace Reads

theorem weaken (reads : Reads place production post)
    (implies : ∀ value read, post value read → weaker value read) :
    Reads place production weaker :=
  fun state begins => (reads state begins).weaken implies

/-- What is known of an answer whatever is read for it. -/
theorem and {property : α → Prop} (reads : Reads place production post)
    (also : Reads place production fun value _ => property value) :
    Reads place production fun value read => post value read ∧ property value := by
  intro state begins
  have first := reads state begins
  have second := also state begins
  cases result : production state with
  | error stop after =>
    rw [result] at first
    exact first
  | ok value after =>
    rw [result] at first second
    rcases first with ⟨read, holds, progress⟩
    rcases second with ⟨_, property, _⟩
    exact ⟨read, ⟨holds, property⟩, progress⟩

theorem restrict (reads : Reads place production post)
    (implies : ∀ tokens, other tokens → place tokens) : Reads other production post :=
  fun state begins => reads state (implies _ begins)

theorem ofAnywhere (reads : Reads anywhere production post) : Reads place production post :=
  reads.restrict fun _ _ => trivial

/-- An answer without reading. -/
theorem pure {value : α} (holds : post value []) :
    Reads place (Pure.pure value : Production α) post :=
  fun state _ => ⟨[], holds, .refl state⟩

/-- One production after another, which completes what the first one read. -/
theorem bind {next : α → Production β} {final : β → List Token → Prop}
    (first : Reads place production post)
    (rest : ∀ value read, post value read →
      Reads anywhere (next value) fun result readBehind => final result (read ++ readBehind)) :
    Reads place (production >>= next) final := by
  intro state begins
  have run := first state begins
  cases result : production state with
  | error stop after =>
    rw [bind_of_error result]
    rw [result] at run
    exact run
  | ok value middle =>
    rw [bind_of_ok result]
    rw [result] at run
    rcases run with ⟨read, holds, progress⟩
    exact .behind progress (rest value read holds middle trivial)

/-- A function of what a production answers. -/
theorem map {function : α → β} {final : β → List Token → Prop}
    (reads : Reads place production fun value read => final (function value) read) :
    Reads place (function <$> production) final := by
  intro state begins
  have run := reads state begins
  change Ends state final (EStateM.map function production state)
  unfold EStateM.map
  cases result : production state with
  | error stop after => rw [result] at run; exact run
  | ok value after => rw [result] at run; exact run

/-- A production whose answer is dropped. -/
theorem discard (reads : Reads place production post) :
    Reads place (Functor.discard production) fun _ read => ∃ value, post value read := by
  have mapped : Reads place ((fun _ => PUnit.unit) <$> production)
      fun _ read => ∃ value, post value read :=
    .map (reads.weaken fun value read holds => ⟨value, holds⟩)
  exact mapped

/-- A stop that is no misfit. -/
theorem throw {stop : Stop} (different : stop ≠ .misfit) :
    Reads place (MonadExcept.throw stop : Production α) post :=
  fun _ _ => ⟨⟨[], .refl _⟩, Nat.le_refl _, fun same => absurd same different⟩

/-- A question about the state, which changes nothing.  The answer may tell something of the
tokens in front. -/
theorem askTelling {question : State → α} {next : α → Production β} {final : β → List Token → Prop}
    {inquiry : Production α} (found : α → Where)
    (same : ∀ state, inquiry state = .ok (question state) state)
    (tells : ∀ state, place state.tokens → found (question state) state.tokens)
    (rest : ∀ answer, Reads (found answer) (next answer) final) :
    Reads place (inquiry >>= next) final := by
  intro state begins
  rw [bind_of_ok (same state)]
  exact rest _ state (tells state begins)

theorem ask {question : State → α} {next : α → Production β} {final : β → List Token → Prop}
    {inquiry : Production α} (same : ∀ state, inquiry state = .ok (question state) state)
    (rest : ∀ answer, Reads place (next answer) final) : Reads place (inquiry >>= next) final :=
  .askTelling (fun _ => place) same (fun _ begins => begins) rest

theorem asks {question : State → Bool} {next : Bool → Production β}
    {final : β → List Token → Prop} (rest : ∀ answer, Reads place (next answer) final) :
    Reads place (Grammar.asks question >>= next) final :=
  .ask (fun _ => rfl) rest

/-- A question that is answered by yes only in front of some token. -/
theorem asksForToken {question : State → Bool} {next : Bool → Production β}
    {final : β → List Token → Prop}
    (tells : ∀ state, question state = true → notAtEnd state.tokens)
    (yes : Reads notAtEnd (next true) final) (no : Reads anywhere (next false) final) :
    Reads place (Grammar.asks question >>= next) final := by
  refine .askTelling (fun answer tokens => answer = true → notAtEnd tokens) (fun _ => rfl)
    (fun state _ => tells state) fun answer => ?_
  cases answer with
  | true => exact yes.restrict fun _ begins => begins rfl
  | false => exact no.ofAnywhere

/-- What the next token is, is known behind the question. -/
theorem kind {next : Token.Kind → Production β} {final : β → List Token → Prop}
    (rest : ∀ found, Reads (fun tokens => place tokens ∧ kindOf tokens = found) (next found) final) :
    Reads place (Grammar.kind >>= next) final :=
  .askTelling (fun found tokens => place tokens ∧ kindOf tokens = found) (fun _ => rfl)
    (fun _ begins => ⟨begins, rfl⟩) rest

theorem kindBehind {next : Token.Kind → Production β} {final : β → List Token → Prop}
    (rest : ∀ found,
      Reads (fun tokens => place tokens ∧ kindOf (tokens.drop 1) = found) (next found) final) :
    Reads place (Grammar.kindBehind >>= next) final :=
  .askTelling (fun found tokens => place tokens ∧ kindOf (tokens.drop 1) = found) (fun _ => rfl)
    (fun _ begins => ⟨begins, rfl⟩) rest

theorem sees {expected : Token.Kind} {next : Bool → Production β} {final : β → List Token → Prop}
    (yes : Reads (fun tokens => place tokens ∧ kindOf tokens = expected) (next true) final)
    (no : Reads place (next false) final) :
    Reads place (Grammar.sees expected >>= next) final := by
  refine .askTelling
    (fun answer tokens => place tokens ∧ (answer = true → kindOf tokens = expected))
    (fun _ => rfl) (fun _ begins => ⟨begins, fun same => eq_of_beq same⟩) fun answer => ?_
  cases answer with
  | true => exact yes.restrict fun _ begins => ⟨begins.1, begins.2 rfl⟩
  | false => exact no.restrict fun _ begins => begins.1

/-- A change of the state that concerns neither the tokens nor the reports. -/
theorem edit {change : State → State}
    (tokens : ∀ state, (change state).tokens = state.tokens)
    (misfits : ∀ state, (change state).misfits = state.misfits) :
    Reads place (modify change : Production PUnit) fun _ read => read = [] := by
  intro state _
  refine ⟨[], rfl, .ofTokens ?_ (misfits state)⟩
  rw [tokens]
  exact .refl _

/-- A production behind one that reads nothing. -/
theorem behindSilent {next : α → Production β} {final : β → List Token → Prop}
    (silent : Reads place production fun _ read => read = [])
    (rest : ∀ value, Reads anywhere (next value) final) :
    Reads place (production >>= next) final := by
  refine .bind silent fun value read none => ?_
  subst none
  exact rest value

/-- What comes behind a part that is there only under a condition and reads nothing. -/
theorem behindIf {condition : Prop} [Decidable condition] {next : Production β}
    {final : β → List Token → Prop} (silent : Reads place production fun _ read => read = [])
    (rest : Reads anywhere next final) :
    Reads place (if condition then production >>= fun _ => next else next) final := by
  by_cases holds : condition
  · rw [if_pos holds]
    exact .behindSilent silent fun _ => rest
  · rw [if_neg holds]
    exact rest.ofAnywhere

/-- What comes behind one of two parts. -/
theorem bindIf {condition : Prop} [Decidable condition] {other : Production α}
    {next : α → Production β} {final : β → List Token → Prop} (yes : Reads place production post)
    (no : Reads place other post)
    (rest : ∀ value read, post value read →
      Reads anywhere (next value) fun result readBehind => final result (read ++ readBehind)) :
    Reads place (if condition then production >>= next else other >>= next) final := by
  by_cases holds : condition
  · rw [if_pos holds]
    exact .bind yes rest
  · rw [if_neg holds]
    exact .bind no rest

/-- What comes behind one of two parts, told apart by the next token. -/
theorem seesBind {expected : Token.Kind} {other : Production α} {next : α → Production β}
    {final : β → List Token → Prop}
    (yes : Reads (fun tokens => place tokens ∧ kindOf tokens = expected) production post)
    (no : Reads place other post)
    (rest : ∀ value read, post value read →
      Reads anywhere (next value) fun result readBehind => final result (read ++ readBehind)) :
    Reads place (Grammar.sees expected >>= fun seen =>
      if seen then production >>= next else other >>= next) final :=
  .sees (.bind yes rest) (.bind no rest)

end Reads

/-! ## Tokens -/

/-- A token of a kind that passes a test, as a tree. -/
def IsLeaf (test : Token.Kind → Prop) (tree : Tree.Plain) (read : List Token) : Prop :=
  ∃ token, test token.kind ∧ tree = Tree.ofToken token ∧ read = [token]

/-- Trees with what was read for each of them. -/
inductive Each (property : Tree.Plain → List Token → Prop) :
    List Tree.Plain → List Token → Prop where
  | nil : Each property [] []
  | cons {tree : Tree.Plain} {trees : List Tree.Plain} {read readBehind : List Token} :
    property tree read → Each property trees readBehind →
    Each property (tree :: trees) (read ++ readBehind)

section Each

variable {property weakerProperty : Tree.Plain → List Token → Prop}
  {trees treesBehind : List Tree.Plain} {read readBehind : List Token}

theorem Each.imp (each : Each property trees read)
    (implies : ∀ tree read, property tree read → weakerProperty tree read) :
    Each weakerProperty trees read := by
  induction each with
  | nil => exact .nil
  | cons holds _ ih => exact .cons (implies _ _ holds) ih

theorem Each.append (front : Each property trees read)
    (back : Each property treesBehind readBehind) :
    Each property (trees ++ treesBehind) (read ++ readBehind) := by
  induction front with
  | nil => exact back
  | cons holds _ ih =>
    rw [List.append_assoc]
    exact .cons holds ih

theorem Each.single {tree : Tree.Plain} (holds : property tree read) :
    Each property [tree] read := by
  rw [← List.append_nil read]
  exact .cons holds .nil

end Each

namespace Reads

/-- Taking a token, unless the text is at its end, and going on behind it. -/
theorem takeThen (test : Token.Kind → Prop) (behind : Where) {next : Tree.Plain → Production β}
    {final : β → List Token → Prop}
    (holds : ∀ tokens, place tokens →
      test (kindOf tokens) ∧ kindOf tokens ≠ .endOfFile ∧ behind (tokens.drop 1))
    (rest : ∀ tree read, IsLeaf test tree read →
      Reads behind (next tree) fun result readBehind => final result (read ++ readBehind)) :
    Reads place (Grammar.take >>= next) final := by
  intro state begins
  rcases holds _ begins with ⟨passes, more, follows⟩
  cases front : state.tokens with
  | nil => rw [front] at more; exact absurd rfl more
  | cons token remaining =>
    rw [front] at passes
    have upcoming : state.next = token := by simp [State.next, front]
    have progress : Progress state state.behindNext [token] := by
      refine ⟨⟨[token], ?_, List.Sublist.refl _, fun _ => rfl⟩, Nat.le_refl _⟩
      change Halved state.tokens ([token] ++ state.tokens.tail)
      rw [front]
      exact .refl _
    change Ends state final (next (Tree.ofToken state.next) state.behindNext)
    rw [upcoming]
    refine .behind progress (rest _ _ ⟨token, passes, rfl, rfl⟩ state.behindNext ?_)
    change behind state.tokens.tail
    rw [← List.drop_one]
    exact follows

/-- Taking a token, unless the text is at its end. -/
theorem take (test : Token.Kind → Prop)
    (holds : ∀ tokens, place tokens → test (kindOf tokens) ∧ kindOf tokens ≠ .endOfFile) :
    Reads place Grammar.take (IsLeaf test) := by
  have both : Reads place (Grammar.take >>= Pure.pure) (IsLeaf test) := by
    refine .takeThen test anywhere
      (fun tokens begins => ⟨(holds tokens begins).1, (holds tokens begins).2, trivial⟩)
      fun tree read leaf => .pure ?_
    rw [List.append_nil]
    exact leaf
  exact both

/-- Taking whatever token is there. -/
theorem takeAny : Reads notAtEnd Grammar.take (IsLeaf fun _ => True) :=
  .take _ fun _ begins => ⟨trivial, begins⟩

/-- Taking a token of a known kind. -/
theorem takeOf {kind : Token.Kind} (more : kind ≠ .endOfFile) :
    Reads (inFrontOf kind) Grammar.take (IsLeaf (· = kind)) :=
  .take _ fun _ begins => ⟨begins, notAtEnd_of_kindOf begins more⟩

/-- Taking a token that was looked at. -/
theorem takeSeen {kind : Token.Kind} (more : kind ≠ .endOfFile) :
    Reads (fun tokens => place tokens ∧ kindOf tokens = kind) Grammar.take (IsLeaf (· = kind)) :=
  .take _ fun _ begins => ⟨begins.2, notAtEnd_of_kindOf begins.2 more⟩

/-- A production that begins at some token, where a token was looked at. -/
theorem ofSeen {kind : Token.Kind} (reads : Reads notAtEnd production post)
    (more : kind ≠ .endOfFile) :
    Reads (fun tokens => place tokens ∧ kindOf tokens = kind) production post :=
  reads.restrict fun _ begins => notAtEnd_of_kindOf begins.2 more

/-- What an optional token gives. -/
def Optional (test : Token.Kind → Prop) : Option Tree.Plain → List Token → Prop
  | some tree, read => IsLeaf test tree read
  | none, read => read = []

theorem take? {expected : Token.Kind} (more : expected ≠ .endOfFile) :
    Reads place (Grammar.take? expected) (Optional (· = expected)) := by
  refine .sees ?_ (.pure rfl)
  refine .bind (.take (· = expected) fun tokens begins => ⟨begins.2, begins.2 ▸ more⟩)
    fun tree read leaf => ?_
  refine .pure ?_
  rw [List.append_nil]
  exact leaf

/-- What follows an optional token, with or without it. -/
theorem optional {expected : Token.Kind} {next : Option Tree.Plain → Production β}
    {final : β → List Token → Prop} (more : expected ≠ .endOfFile)
    (found : ∀ tree read, IsLeaf (· = expected) tree read →
      Reads anywhere (next (some tree)) fun result readBehind => final result (read ++ readBehind))
    (missing : Reads anywhere (next none) final) :
    Reads place (Grammar.take? expected >>= next) final := by
  refine .bind (.take? more) fun answer read holds => ?_
  cases answer with
  | none =>
    cases holds
    exact missing
  | some tree => exact found tree read holds

/-- Reporting the next token and stopping. -/
theorem fail {message : Message} {arguments : List String} :
    Reads place (Grammar.fail message arguments : Production α) post := by
  intro state _
  refine ⟨⟨[], .refl _⟩, ?_, fun _ => ?_⟩
  · change state.misfits.length ≤ (state.misfits ++ [_]).length
    simp
  · change state.misfits.length < (state.misfits ++ [_]).length
    simp

/-- Reporting the next token and passing over it. -/
theorem reportThenPass {message : Message} {arguments : List String} {next : PUnit → Production β}
    {final : β → List Token → Prop} (rest : Reads anywhere (next ⟨⟩) final) :
    Reads place (Grammar.report message arguments >>= fun _ =>
      modify State.behindNext >>= next) final := by
  intro state _
  have progress : Progress state
      { state with
        misfits := state.misfits ++ [⟨state.next, message, arguments⟩]
        tokens := state.tokens.tail } [] := by
    refine ⟨⟨state.tokens.take 1, ?_, List.nil_sublist _, fun same => ?_⟩, by simp⟩
    · have whole : state.tokens.take 1 ++ state.tokens.tail = state.tokens := by
        rw [← List.drop_one, List.take_append_drop]
      simpa only [whole] using Halved.refl state.tokens
    · simp at same
  exact .behind progress (rest _ trivial)

theorem splitShift : Reads place Grammar.splitShift fun _ read => read = [] :=
  fun state _ => ⟨[], rfl, .ofTokens (halved_splitFirst state.tokens) rfl⟩

theorem expect {expected : Token.Kind} {shown : String} (more : expected ≠ .endOfFile) :
    Reads place (Grammar.expect expected shown) (IsLeaf (· = expected)) := by
  unfold Grammar.expect
  refine .behindIf .splitShift (.optional more (fun tree read leaf => .pure ?_) .fail)
  rw [List.append_nil]
  exact leaf

/-- What an encoding holds, where it can be taken apart. -/
theorem reading {value : Except Encoding.Flaw α} {next : α → Production β}
    {final : β → List Token → Prop} (rest : ∀ result, Reads place (next result) final) :
    Reads place (Grammar.reading value >>= next) final := by
  cases value with
  | error flaw =>
    have stops : Reads place (Grammar.reading (.error flaw) : Production α) fun _ _ => False :=
      .throw (by simp)
    exact .bind stops fun result read impossible => impossible.elim
  | ok result => exact rest result

/-- What was counted, where the count can be told. -/
theorem counting {value : Option α} {next : α → Production β} {final : β → List Token → Prop}
    (rest : ∀ result, Reads place (next result) final) :
    Reads place (Grammar.counting value >>= next) final := by
  cases value with
  | none =>
    have stops : Reads place (Grammar.counting none : Production α) fun _ _ => False :=
      .throw (by simp)
    exact .bind stops fun result read impossible => impossible.elim
  | some result => exact rest result

/-! ## Nesting -/

/-- Running in an entered state that has the same tokens and reports. -/
theorem within {enter : State → State} {leave : State → State → State}
    (enterTokens : ∀ state, (enter state).tokens = state.tokens)
    (enterMisfits : ∀ state, (enter state).misfits = state.misfits)
    (leaveTokens : ∀ outside inside, (leave outside inside).tokens = inside.tokens)
    (leaveMisfits : ∀ outside inside, (leave outside inside).misfits = inside.misfits)
    (body : Reads place production post) :
    Reads place (Grammar.within enter leave production) post := by
  intro state begins
  have run := body (enter state) (enterTokens state ▸ begins)
  have entered : Progress state (enter state) [] :=
    .ofTokens (enterTokens state ▸ .refl _) (enterMisfits state)
  have ends : Ends state post (production (enter state)) := .behind entered run
  unfold Grammar.within
  cases result : production (enter state) with
  | error stop after =>
    rw [result] at ends
    refine ⟨?_, ?_, ?_⟩
    · rw [leaveTokens]; exact ends.passed
    · rw [leaveMisfits]; exact ends.misfits
    · rw [leaveMisfits]; exact ends.reported
  | ok value after =>
    rw [result] at ends
    rcases ends with ⟨read, holds, progress⟩
    refine ⟨read, holds, ?_, ?_⟩
    · rw [leaveTokens, leaveMisfits]; exact progress.passed
    · rw [leaveMisfits]; exact progress.misfits

/-- Going one level deeper does not move the place. -/
theorem descendThen {next : Unit → Production β} {final : β → List Token → Prop}
    (rest : Reads place (next ()) final) : Reads place (Grammar.descend >>= next) final := by
  intro state begins
  have runs := descend_eq state
  by_cases deepest : state.maxDepth ≤ state.depth
  · rw [if_pos deepest] at runs
    have fails : Reads place (Grammar.fail .nestingTooDeep [toString state.maxDepth] : Production β)
        final := fail
    have same : (Grammar.descend >>= next) state =
        (Grammar.fail .nestingTooDeep [toString state.maxDepth] : Production β) state :=
      bind_of_error runs
    rw [same]
    exact fails state begins
  · rw [if_neg deepest] at runs
    have deeper : Progress state { state with depth := state.depth + 1 } [] :=
      .ofTokens (.refl _) rfl
    rw [bind_of_ok runs]
    exact .behind deeper (rest _ begins)

theorem nested (body : Reads place production post) :
    Reads place (Grammar.nested production) post :=
  .within (fun _ => rfl) (fun _ => rfl) (fun _ _ => rfl) (fun _ _ => rfl) (.descendThen body)

theorem chained (body : Reads place production post) :
    Reads place (Grammar.chained production) post :=
  .within (fun _ => rfl) (fun _ => rfl) (fun _ _ => rfl) (fun _ _ => rfl) body

theorem inTemplate (body : Reads place production post) :
    Reads place (Grammar.inTemplate production) post :=
  .within (fun _ => rfl) (fun _ => rfl) (fun _ _ => rfl) (fun _ _ => rfl) body

theorem inParentheses (body : Reads place production post) :
    Reads place (Grammar.inParentheses production) post :=
  .within (fun _ => rfl) (fun _ => rfl) (fun _ _ => rfl) (fun _ _ => rfl) body

theorem inBlock (body : Reads place production post) :
    Reads place (Grammar.inBlock production) post :=
  .within (fun _ => rfl) (fun _ => rfl) (fun _ _ => rfl) (fun _ _ => rfl) body

theorem underTemplateHeader (body : Reads place production post) :
    Reads place (Grammar.underTemplateHeader production) post :=
  .within (fun _ => rfl) (fun _ => rfl) (fun _ _ => rfl) (fun _ _ => rfl) body

/-! ## Repetition -/

/-- What a turn of a loop has read, given what was read before it. -/
def Turns (invariant final : α → List Token → Prop) (before : List Token) :
    Turn α → List Token → Prop
  | .again value, read => invariant value (before ++ read)
  | .done value, read => final value (before ++ read)

theorem repeatWithin (invariant final : α → List Token → Prop) {step : α → Production (Turn α)}
    (turn : ∀ value read, invariant value read →
      Reads anywhere (step value) (Turns invariant final read)) (count : Nat) {value : α}
    {read : List Token} (holds : invariant value read) :
    Reads anywhere (Grammar.repeatWithin step count value) fun value readBehind =>
      final value (read ++ readBehind) := by
  induction count generalizing value read with
  | zero => exact .throw (by simp)
  | succ count ih =>
    refine .bind (turn value read holds) fun ended readTurn turns => ?_
    cases ended with
    | again next =>
      refine (ih turns).weaken fun value readBehind holds => ?_
      rw [← List.append_assoc]
      exact holds
    | done last =>
      refine .pure ?_
      rw [List.append_nil]
      exact turns

/-- A loop whose turns keep an invariant. -/
theorem repeatFrom (invariant final : α → List Token → Prop) {start : α} {before : List Token}
    {step : α → Production (Turn α)} (begins : invariant start before)
    (turn : ∀ value read, invariant value read →
      Reads anywhere (step value) (Turns invariant final read)) :
    Reads place (Grammar.repeatFrom start step) fun value read => final value (before ++ read) :=
  .ask (fun _ => rfl) fun _ => (repeatWithin invariant final turn _ begins).ofAnywhere

/-- A loop that begins with nothing read. -/
theorem repeatFromNothing (invariant : α → List Token → Prop) {final : α → List Token → Prop} {start : α}
    {step : α → Production (Turn α)} (begins : invariant start [])
    (turn : ∀ value read, invariant value read →
      Reads anywhere (step value) (Turns invariant final read)) :
    Reads place (Grammar.repeatFrom start step) final :=
  repeatFrom invariant final begins turn

/-- Items and the commas between them. -/
theorem commaSeparated {property : Tree.Plain → List Token → Prop}
    {item : Production (List Tree.Plain)} (reads : Reads anywhere item (Each property))
    (comma : ∀ tree read, IsLeaf (· = .comma) tree read → property tree read) :
    Reads place (Grammar.commaSeparated item) (Each property) := by
  refine .repeatFromNothing (Each property) .nil fun items read each => ?_
  refine .bind reads fun next readNext eachNext => ?_
  refine .optional (by decide) (fun tree readComma leaf => .pure ?_) (.pure ?_)
  · simpa [Turns] using (each.append eachNext).append (.single (comma _ _ leaf))
  · simpa [Turns] using each.append eachNext

/-- The tokens in front whose kinds pass a test. -/
theorem takeRun {test : Token.Kind → Bool} (inside : test .endOfFile = false) :
    Reads place (Grammar.takeRun test) (Each (IsLeaf fun kind => test kind = true)) := by
  refine .repeatFromNothing (Each (IsLeaf fun kind => test kind = true)) .nil
    fun items read each => ?_
  refine .kind fun found => ?_
  split
  · next passes =>
    refine .bind (.take (fun kind => test kind = true) fun tokens begins => ?_)
      fun tree readTree leaf => ?_
    · rw [begins.2]
      exact ⟨passes, fun same => by rw [same, inside] at passes; cases passes⟩
    · exact .pure (by simpa [Turns] using each.append (.single leaf))
  · exact .pure (by simpa [Turns] using each)

/-! ## Names -/

theorem learnType (name : String) :
    Reads place (Grammar.learnType name) fun _ read => read = [] :=
  .edit (fun _ => rfl) fun _ => rfl

theorem learnTemplate (name : String) :
    Reads place (Grammar.learnTemplate name) fun _ read => read = [] :=
  .edit (fun _ => rfl) fun _ => rfl

theorem anonymousName : Reads place Grammar.anonymousName fun _ read => read = [] :=
  .behindSilent (.edit (fun _ => rfl) fun _ => rfl) fun _ =>
    .ask (fun _ => rfl) fun _ => .pure rfl

/-! ## Resuming -/

theorem suffix_behindSemicolon (tokens : List Token) : behindSemicolon tokens <:+ tokens := by
  cases tokens with
  | nil => exact List.suffix_rfl
  | cons token rest =>
    simp only [behindSemicolon]
    split
    · exact List.suffix_cons token rest
    · exact List.suffix_rfl

/-- Parsing resumes at a token that was not passed over yet. -/
theorem suffix_resumed (braces : Nat) (tokens : List Token) : resumed braces tokens <:+ tokens := by
  induction tokens generalizing braces with
  | nil => exact List.suffix_rfl
  | cons token rest ih =>
    unfold resumed
    split
    · exact List.suffix_cons token rest
    · exact (ih _).trans (List.suffix_cons token rest)
    · exact List.suffix_rfl
    · exact (suffix_behindSemicolon rest).trans (List.suffix_cons token rest)
    · exact (ih _).trans (List.suffix_cons token rest)
    · exact (ih _).trans (List.suffix_cons token rest)

/-- Where a production stops at a misfit there is no tree, and the tokens up to where parsing
resumes are passed over. -/
theorem recovering {property : Tree.Plain → List Token → Prop}
    {body : Production Tree.Plain} (reads : Reads place body property) :
    Reads place (Grammar.recovering body) (Each property) := by
  intro state begins
  have ends := reads state begins
  unfold Grammar.recovering
  cases result : body state with
  | ok tree after =>
    rw [result] at ends
    rcases ends with ⟨read, holds, progress⟩
    exact ⟨read, .single holds, progress⟩
  | error stop after =>
    rw [result] at ends
    cases stop with
    | misfit =>
      rcases ends.passed with ⟨passed, halved⟩
      rcases suffix_resumed 0 after.tokens with ⟨skipped, behind⟩
      have more := ends.reported rfl
      refine ⟨[], .nil, ⟨passed ++ skipped, ?_, List.nil_sublist _, fun same => ?_⟩, ends.misfits⟩
      · rw [List.append_assoc]
        change Halved state.tokens (passed ++ (skipped ++ resumed 0 after.tokens))
        rw [behind]
        exact halved
      · change after.misfits.length = state.misfits.length at same
        omega
    | _ => exact ends

end Reads
end Grammar
end CppNames
