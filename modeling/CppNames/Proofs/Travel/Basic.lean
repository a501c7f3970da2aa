import CppNames.Grammar.Parse
import CppNames.Proofs.Grammar.Reading
import Mathlib.Logic.Relation

namespace CppNames
namespace Grammar

/-!
# The states of a parser on its way

Whatever the parser does is made of a few small steps.  Most of them pass a token, report one or
resume behind trouble, and leave the registry of template names alone.  The others are few: a class
specifier begins, a name goes into the registry, a declaration under a template header begins or
ends.  A state is `Reached` from another one if it lies on a way of such steps.

Every production of the grammar goes such a way from wherever it begins, also where it stops.  So
what every step keeps holds of every state of a parser, and of the state in which it ends.
-/

/-! ## Steps -/

/-- The keywords that begin a class specifier. -/
def isClassKey (kind : Token.Kind) : Bool := [.kwClass, .kwStruct, .kwUnion].contains kind

/-- Two states that differ in counts and in the names of types only. -/
structure Aside (before after : State) : Prop where
  tokens : after.tokens = before.tokens
  finish : after.finish = before.finish
  misfits : after.misfits = before.misfits
  templateNames : after.templateNames = before.templateNames
  underHeader : after.underHeader = before.underHeader

/-- A step that begins no class specifier and learns no template.  The keyword of a class is passed
only as the keyword of a type parameter. -/
inductive Advance : State → State → Prop where
  | pass {state : State} : isClassKey (kindOf state.tokens) = false →
    Advance state state.behindNext
  | typeKeyword {state : State} : followsTypeKeyword (kindOf (state.tokens.drop 1)) = true →
    Advance state state.behindNext
  | split (state : State) : Advance state { state with tokens := splitFirst state.tokens }
  | report (state : State) (message : Message) (arguments : List String) :
    Advance state { state with misfits := state.misfits ++ [⟨state.next, message, arguments⟩] }
  | resume (state : State) : Advance state { state with tokens := resumed 0 state.tokens }
  | aside {before after : State} : Aside before after → Advance before after

/-- The state behind the keyword of a class specifier.  No header waits for a class any more. -/
def State.behindClassKey (state : State) : State := { state.behindNext with underHeader := false }

/-- The state in front of the declaration that a template header is for.  The header waits for a
class. -/
def State.headed (state : State) : State := { state with underHeader := true }

/-- The state behind the declaration that a template header is for. -/
def State.unheaded (state : State) : State := { state with underHeader := false }

/-- The state with one more name in the registry of templates. -/
def State.withTemplate (state : State) (text : String) : State :=
  { state with templateNames := text :: state.templateNames }

/-- A template header: the keyword, and the parameters in angles. -/
def templateHeader (g : Productions) : Production (List Tree.Plain) := do
  let keyword ← take
  let opening ← expect .less "<"
  let parameters ← templateParameters g
  let closing ← expect .greater ">"
  return [keyword, opening, Tree.seq parameters, closing]

/-- A template header stands between two states. -/
def ReadsHeader (before opened : State) : Prop :=
  kindOf before.tokens = .kwTemplate ∧
    ∃ level header, templateHeader (productions level) before = .ok header opened

/-- A name stands between two states, and a text is its last identifier. -/
def ReadsName (before behind : State) (text : String) : Prop :=
  ∃ level named, name (productions level) true before = .ok named behind ∧
    lastIdentifier? named.tree = some text

/-- A declaration stands between two states, and a text names the function that it declares
first. -/
def ReadsFunction (before behind : State) (text : String) : Prop :=
  ∃ level place tree, (productions level).declaration place before = .ok tree behind ∧
    declaredFunction? tree = some text

/-- The states on the way of a parser. -/
inductive Reached (start : State) : State → Prop where
  | start : Reached start start
  | step {before after : State} : Reached start before → Advance before after →
    Reached start after
  | specifier {state : State} : Reached start state → isClassKey (kindOf state.tokens) = true →
    Reached start state.behindClassKey
  | learnClass {state behind : State} {text : String} : Reached start state →
    isClassKey (kindOf state.tokens) = true → state.underHeader = true →
    ReadsName state.behindClassKey behind text → Reached start behind →
    Reached start (behind.withTemplate text)
  | enter {before opened : State} : Reached start before → ReadsHeader before opened →
    Reached start opened → Reached start opened.headed
  | leave {state : State} : Reached start state → Reached start state.unheaded
  | learnFunction {before opened behind : State} {text : String} : Reached start before →
    ReadsHeader before opened → ReadsFunction opened.headed behind text →
    Reached start behind.unheaded → Reached start (behind.unheaded.withTemplate text)

/-! ## Productions that go such a way -/

variable {α β : Type} {place other : Where} {production : Production α}

/-- The state in which a production ends, however it ends. -/
def stateAfter : EStateM.Result Stop State α → State
  | .ok _ state => state
  | .error _ state => state

/-- From every place of a kind, a production ends in a state on its way. -/
def Travels (place : Where) (production : Production α) : Prop :=
  ∀ start state, Reached start state → place state.tokens →
    Reached start (stateAfter (production state))

/-- A production behind one that has ended in a state on the way. -/
theorem Reached.bind {start state : State} {next : α → Production β}
    (reached : Reached start (stateAfter (production state)))
    (rest : ∀ value, Travels anywhere (next value)) :
    Reached start (stateAfter ((production >>= next) state)) := by
  cases result : production state with
  | error stop after =>
    rw [bind_of_error result]
    rw [result] at reached
    exact reached
  | ok value middle =>
    rw [bind_of_ok result]
    rw [result] at reached
    exact rest value start middle reached trivial

/-- A place in front of a token that begins no class specifier. -/
def noClassKey : Where := fun tokens => isClassKey (kindOf tokens) = false

theorem noClassKey_of_kindOf {tokens : List Token} {kind : Token.Kind}
    (same : kindOf tokens = kind) (plain : isClassKey kind = false) : noClassKey tokens := by
  unfold noClassKey
  rw [same]
  exact plain

/-- A test on kinds that no keyword of a class passes. -/
theorem isClassKey_eq_false {test : Token.Kind → Bool} (classes : test .kwClass = false)
    (structs : test .kwStruct = false) (unions : test .kwUnion = false) {kind : Token.Kind}
    (passes : test kind = true) : isClassKey kind = false := by
  by_contra isKey
  have which : kind = .kwClass ∨ kind = .kwStruct ∨ kind = .kwUnion := by
    simpa [isClassKey, or_iff_not_imp_left] using isKey
  rcases which with rfl | rfl | rfl
  · exact Bool.noConfusion (classes.symm.trans passes)
  · exact Bool.noConfusion (structs.symm.trans passes)
  · exact Bool.noConfusion (unions.symm.trans passes)

namespace Travels

theorem restrict (travels : Travels place production)
    (implies : ∀ tokens, other tokens → place tokens) : Travels other production :=
  fun start state reached begins => travels start state reached (implies _ begins)

theorem ofAnywhere (travels : Travels anywhere production) : Travels place production :=
  travels.restrict fun _ _ => trivial

/-- A production that begins in front of a token that was looked at. -/
theorem ofSeen {kind : Token.Kind} (travels : Travels noClassKey production)
    (plain : isClassKey kind = false) :
    Travels (fun tokens => place tokens ∧ kindOf tokens = kind) production :=
  travels.restrict fun _ begins => noClassKey_of_kindOf begins.2 plain

theorem pure {value : α} : Travels place (Pure.pure value : Production α) :=
  fun _ _ reached _ => reached

theorem throw {stop : Stop} : Travels place (MonadExcept.throw stop : Production α) :=
  fun _ _ reached _ => reached

theorem bind {next : α → Production β} (first : Travels place production)
    (rest : ∀ value, Travels anywhere (next value)) : Travels place (production >>= next) :=
  fun start state reached begins => (first start state reached begins).bind rest

theorem map {function : α → β} (travels : Travels place production) :
    Travels place (function <$> production) := by
  intro start state reached begins
  have run := travels start state reached begins
  change Reached start (stateAfter (EStateM.map function production state))
  unfold EStateM.map
  cases result : production state with
  | error stop after => rw [result] at run; exact run
  | ok value after => rw [result] at run; exact run

theorem discard (travels : Travels place production) :
    Travels place (Functor.discard production) := by
  have mapped : Travels place ((fun _ => PUnit.unit) <$> production) := travels.map
  exact mapped

/-! ## Questions -/

/-- A question, which changes nothing and may tell something of the tokens in front. -/
theorem askTelling {question : State → α} {next : α → Production β} {inquiry : Production α}
    (found : α → Where) (same : ∀ state, inquiry state = .ok (question state) state)
    (tells : ∀ state, place state.tokens → found (question state) state.tokens)
    (rest : ∀ answer, Travels (found answer) (next answer)) :
    Travels place (inquiry >>= next) := by
  intro start state reached begins
  rw [bind_of_ok (same state)]
  exact rest _ start state reached (tells state begins)

theorem ask {question : State → α} {next : α → Production β} {inquiry : Production α}
    (same : ∀ state, inquiry state = .ok (question state) state)
    (rest : ∀ answer, Travels place (next answer)) : Travels place (inquiry >>= next) :=
  .askTelling (fun _ => place) same (fun _ begins => begins) rest

theorem asks {question : State → Bool} {next : Bool → Production β}
    (rest : ∀ answer, Travels place (next answer)) :
    Travels place (Grammar.asks question >>= next) :=
  .ask (fun _ => rfl) rest

/-- A question that is answered by yes only where no class specifier begins. -/
theorem asksForToken {question : State → Bool} {next : Bool → Production β}
    (tells : ∀ state, question state = true → noClassKey state.tokens)
    (yes : Travels noClassKey (next true)) (no : Travels anywhere (next false)) :
    Travels place (Grammar.asks question >>= next) := by
  refine .askTelling (fun answer tokens => answer = true → noClassKey tokens) (fun _ => rfl)
    (fun state _ => tells state) fun answer => ?_
  cases answer with
  | true => exact yes.restrict fun _ begins => begins rfl
  | false => exact no.ofAnywhere

theorem kind {next : Token.Kind → Production β}
    (rest : ∀ found, Travels (fun tokens => place tokens ∧ kindOf tokens = found) (next found)) :
    Travels place (Grammar.kind >>= next) :=
  .askTelling (fun found tokens => place tokens ∧ kindOf tokens = found) (fun _ => rfl)
    (fun _ begins => ⟨begins, rfl⟩) rest

theorem kindBehind {next : Token.Kind → Production β}
    (rest : ∀ found,
      Travels (fun tokens => place tokens ∧ kindOf (tokens.drop 1) = found) (next found)) :
    Travels place (Grammar.kindBehind >>= next) :=
  .askTelling (fun found tokens => place tokens ∧ kindOf (tokens.drop 1) = found) (fun _ => rfl)
    (fun _ begins => ⟨begins, rfl⟩) rest

theorem sees {expected : Token.Kind} {next : Bool → Production β}
    (yes : Travels (fun tokens => place tokens ∧ kindOf tokens = expected) (next true))
    (no : Travels place (next false)) : Travels place (Grammar.sees expected >>= next) := by
  refine .askTelling
    (fun answer tokens => place tokens ∧ (answer = true → kindOf tokens = expected))
    (fun _ => rfl) (fun _ begins => ⟨begins, fun same => eq_of_beq same⟩) fun answer => ?_
  cases answer with
  | true => exact yes.restrict fun _ begins => ⟨begins.1, begins.2 rfl⟩
  | false => exact no.restrict fun _ begins => begins.1

/-- What comes behind one of two parts, told apart by the next token. -/
theorem seesBind {expected : Token.Kind} {other : Production α} {next : α → Production β}
    (yes : Travels (fun tokens => place tokens ∧ kindOf tokens = expected) production)
    (no : Travels place other) (rest : ∀ value, Travels anywhere (next value)) :
    Travels place (Grammar.sees expected >>= fun seen =>
      if seen then production >>= next else other >>= next) :=
  .sees (.bind yes rest) (.bind no rest)

/-! ## Steps -/

/-- A change of the state that is one step. -/
theorem advance {change : State → State}
    (steps : ∀ state, place state.tokens → Advance state (change state)) :
    Travels place (modify change : Production PUnit) :=
  fun _ state reached begins => reached.step (steps state begins)

/-- A change that concerns counts and the names of types only. -/
theorem edit {change : State → State} (aside : ∀ state, Aside state (change state)) :
    Travels place (modify change : Production PUnit) :=
  .advance fun state _ => .aside (aside state)

/-- Passing a token and going on behind it. -/
theorem takeThen (behind : Where) {next : Tree.Plain → Production β}
    (holds : ∀ tokens, place tokens →
      isClassKey (kindOf tokens) = false ∧ behind (tokens.drop 1))
    (rest : ∀ tree, Travels behind (next tree)) : Travels place (Grammar.take >>= next) := by
  intro start state reached begins
  rcases holds _ begins with ⟨plain, follows⟩
  refine rest (Tree.ofToken state.next) start state.behindNext (reached.step (.pass plain)) ?_
  change behind state.tokens.tail
  rw [← List.drop_one]
  exact follows

theorem take : Travels noClassKey Grammar.take :=
  fun _ _ reached plain => reached.step (.pass plain)

/-- Passing a token of a known kind. -/
theorem takeOf {kind : Token.Kind} (plain : isClassKey kind = false) :
    Travels (inFrontOf kind) Grammar.take :=
  take.restrict fun _ begins => noClassKey_of_kindOf begins plain

/-- Passing a token that was looked at. -/
theorem takeSeen {kind : Token.Kind} (plain : isClassKey kind = false) :
    Travels (fun tokens => place tokens ∧ kindOf tokens = kind) Grammar.take :=
  take.ofSeen plain

theorem take? {expected : Token.Kind} (plain : isClassKey expected = false) :
    Travels place (Grammar.take? expected) :=
  .sees (.bind (.takeSeen plain) fun _ => .pure) .pure

/-- What follows an optional token, with or without it. -/
theorem optional {expected : Token.Kind} {next : Option Tree.Plain → Production β}
    (plain : isClassKey expected = false) (found : ∀ tree, Travels anywhere (next (some tree)))
    (missing : Travels anywhere (next none)) :
    Travels place (Grammar.take? expected >>= next) := by
  refine .bind (.take? plain) fun answer => ?_
  cases answer with
  | none => exact missing
  | some tree => exact found tree

theorem report {message : Message} {arguments : List String} :
    Travels place (Grammar.report message arguments) :=
  .advance fun state _ => .report state message arguments

theorem fail {message : Message} {arguments : List String} :
    Travels place (Grammar.fail message arguments : Production α) :=
  .bind .report fun _ => .throw

/-- Reporting a token that begins no class specifier, and passing over it. -/
theorem reportThenPass {kind : Token.Kind} (plain : isClassKey kind = false) {message : Message}
    {arguments : List String} {next : PUnit → Production β} (rest : Travels anywhere (next ⟨⟩)) :
    Travels (fun tokens => place tokens ∧ kindOf tokens = kind)
      (Grammar.report message arguments >>= fun _ => modify State.behindNext >>= next) := by
  intro start state reached begins
  have reported := reached.step (.report state message arguments)
  exact rest start _ (reported.step (.pass (noClassKey_of_kindOf begins.2 plain))) trivial

theorem splitShift : Travels place Grammar.splitShift :=
  .advance fun state _ => .split state

theorem expect {expected : Token.Kind} {shown : String} (plain : isClassKey expected = false) :
    Travels place (Grammar.expect expected shown) := by
  unfold Grammar.expect
  split
  · exact .bind .splitShift fun _ => .optional plain (fun _ => .pure) .fail
  · exact .optional plain (fun _ => .pure) .fail

theorem reading {value : Except Encoding.Flaw α} {next : α → Production β}
    (rest : ∀ result, Travels anywhere (next result)) :
    Travels place (Grammar.reading value >>= next) := by
  refine .bind ?_ rest
  cases value with
  | error flaw => exact .throw
  | ok result => exact .pure

theorem counting {value : Option α} {next : α → Production β}
    (rest : ∀ result, Travels place (next result)) :
    Travels place (Grammar.counting value >>= next) := by
  cases value with
  | none => exact fun _ _ reached _ => reached
  | some result => exact rest result

/-! ## Nesting -/

/-- Running in an entered state that differs in counts only. -/
theorem within {enter : State → State} {leave : State → State → State}
    (enters : ∀ state, Aside state (enter state))
    (leaves : ∀ outside inside, Aside inside (leave outside inside))
    (body : Travels place production) : Travels place (Grammar.within enter leave production) := by
  intro start state reached begins
  have run := body start (enter state) (reached.step (.aside (enters state)))
    ((enters state).tokens ▸ begins)
  unfold Grammar.within
  cases result : production (enter state) with
  | error stop after => rw [result] at run; exact run.step (.aside (leaves state after))
  | ok value after => rw [result] at run; exact run.step (.aside (leaves state after))

/-- Going one level deeper does not move the place. -/
theorem descendThen {next : Unit → Production β} (rest : Travels place (next ())) :
    Travels place (Grammar.descend >>= next) := by
  intro start state reached begins
  have runs := descend_eq state
  by_cases deepest : state.maxDepth ≤ state.depth
  · rw [if_pos deepest] at runs
    rw [bind_of_error runs]
    exact reached.step (.report state _ _)
  · rw [if_neg deepest] at runs
    rw [bind_of_ok runs]
    exact rest start _ (reached.step (.aside ⟨rfl, rfl, rfl, rfl, rfl⟩)) begins

theorem nested (body : Travels place production) : Travels place (Grammar.nested production) :=
  .within (fun _ => ⟨rfl, rfl, rfl, rfl, rfl⟩) (fun _ _ => ⟨rfl, rfl, rfl, rfl, rfl⟩)
    (.descendThen body)

theorem chained (body : Travels place production) : Travels place (Grammar.chained production) :=
  .within (fun _ => ⟨rfl, rfl, rfl, rfl, rfl⟩) (fun _ _ => ⟨rfl, rfl, rfl, rfl, rfl⟩) body

theorem inTemplate (body : Travels place production) :
    Travels place (Grammar.inTemplate production) :=
  .within (fun _ => ⟨rfl, rfl, rfl, rfl, rfl⟩) (fun _ _ => ⟨rfl, rfl, rfl, rfl, rfl⟩) body

theorem inParentheses (body : Travels place production) :
    Travels place (Grammar.inParentheses production) :=
  .within (fun _ => ⟨rfl, rfl, rfl, rfl, rfl⟩) (fun _ _ => ⟨rfl, rfl, rfl, rfl, rfl⟩) body

theorem inBlock (body : Travels place production) : Travels place (Grammar.inBlock production) :=
  .within (fun _ => ⟨rfl, rfl, rfl, rfl, rfl⟩) (fun _ _ => ⟨rfl, rfl, rfl, rfl, rfl⟩) body

theorem underTemplateHeader_of_ok {value : α} {opened inside : State}
    (runs : production opened.headed = .ok value inside) :
    Grammar.underTemplateHeader production opened = .ok value inside.unheaded := by
  have same : production { opened with underHeader := true } = .ok value inside := runs
  unfold Grammar.underTemplateHeader Grammar.within
  dsimp only
  rw [same]
  rfl

theorem underTemplateHeader_of_error {stop : Stop} {opened inside : State}
    (runs : production opened.headed = .error stop inside) :
    Grammar.underTemplateHeader production opened = .error stop inside.unheaded := by
  have same : production { opened with underHeader := true } = .error stop inside := runs
  unfold Grammar.underTemplateHeader Grammar.within
  dsimp only
  rw [same]
  rfl

/-! ## Repetition -/

theorem repeatWithin {turn : α → Production (Turn α)}
    (turns : ∀ value, Travels anywhere (turn value)) (count : Nat) (value : α) :
    Travels anywhere (Grammar.repeatWithin turn count value) := by
  induction count generalizing value with
  | zero => exact .throw
  | succ count ih =>
    refine .bind (turns value) fun ended => ?_
    cases ended with
    | again next => exact ih next
    | done last => exact .pure

theorem repeatFrom {first : α} {turn : α → Production (Turn α)}
    (turns : ∀ value, Travels anywhere (turn value)) :
    Travels place (Grammar.repeatFrom first turn) :=
  .ask (fun _ => rfl) fun _ => (repeatWithin turns _ first).ofAnywhere

theorem commaSeparated {item : Production (List Tree.Plain)} (items : Travels anywhere item) :
    Travels place (Grammar.commaSeparated item) :=
  .repeatFrom fun _ => .bind items fun _ => .optional rfl (fun _ => .pure) .pure

/-- The tokens in front whose kinds pass a test that no keyword of a class passes. -/
theorem takeRun {test : Token.Kind → Bool}
    (plain : ∀ kind, test kind = true → isClassKey kind = false) :
    Travels place (Grammar.takeRun test) := by
  refine .repeatFrom fun items => .kind fun found => ?_
  split
  · next passes => exact .bind (.takeSeen (plain found passes)) fun _ => .pure
  · exact .pure

/-! ## Names -/

theorem learnType (name : String) : Travels place (Grammar.learnType name) :=
  .edit fun _ => ⟨rfl, rfl, rfl, rfl, rfl⟩

theorem anonymousName : Travels place Grammar.anonymousName :=
  .bind (.edit fun _ => ⟨rfl, rfl, rfl, rfl, rfl⟩) fun _ => .ask (fun _ => rfl) fun _ => .pure

/-! ## Resuming -/

theorem recovering {body : Production Tree.Plain} (travels : Travels place body) :
    Travels place (Grammar.recovering body) := by
  intro start state reached begins
  have run := travels start state reached begins
  unfold Grammar.recovering
  cases result : body state with
  | ok tree after => rw [result] at run; exact run
  | error stop after =>
    rw [result] at run
    cases stop with
    | misfit => exact run.step (.resume after)
    | _ => exact run

end Travels
end Grammar
end CppNames
