import CppNames.Proofs.Grammar.Parse
import CppNames.Proofs.Running.Level
import CppNames.Proofs.Token.Tiling

namespace CppNames
namespace Grammar

/-!
# Parsing comes to an end

However a text is made, the loops and the recursion of the parser end before their bounds, and
where there is an answer no token is left.  A misfit never gets out of a list of declarations.
So there are two reasons for which a text is not parsed: a type has more `long`s than one byte can
count, or the type behind the keyword `operator` cannot be shown.

A turn of a loop that goes on passes a token, in any state whatever and also where a production
inside it stopped without having passed one.
-/

variable {α β : Type} {tokens : List Token}

/-! ## The end of the recursion -/

/-- Why a text cannot be parsed. -/
inductive Unparsed (tokens : List Token) : Stop → Prop where
  /-- There are more `long`s than one byte can count. -/
  | overflow : capacity 8 ≤ longsIn tokens → Unparsed tokens .overflow
  /-- The type that a conversion function gives cannot be shown. -/
  | flaw (flaw : Encoding.Flaw) {token : Token} :
    token ∈ tokens → token.kind = .kwOperator → Unparsed tokens (.flaw flaw)

theorem Unparsed.append {stop : Stop} (unparsed : Unparsed tokens stop) (finish : Token) :
    Unparsed (tokens ++ [finish]) stop := by
  cases unparsed with
  | overflow many =>
    refine .overflow (Nat.le_trans many ?_)
    rw [longsIn_append]
    exact Nat.le_add_right _ _
  | flaw flaw member operator => exact .flaw flaw (List.mem_append_left _ member) operator

/-- The terms on which a text is parsed. -/
def Terms.ofTokens (tokens : List Token) : Terms where
  may stop := stop = .misfit ∨ Unparsed tokens stop
  misfit := .inl rfl
  deep := True

theorem bound_ofTokens (maxDepth : Nat) (tokens : List Token) :
    (State.ofTokens maxDepth tokens).bound = weigh tokens + 1 := by
  change tokens.foldr (fun token count => weight token + count) 1 = _
  induction tokens with
  | nil => rfl
  | cons token rest ih => rw [List.foldr_cons, ih, weigh_cons, Nat.add_assoc]

/-- The bounds of the parser are beyond the weight of the text. -/
theorem ready_ofTokens (maxDepth : Nat) (finish : Token) :
    Ready (.ofTokens tokens) (weigh (tokens ++ [finish]) + 1) 2
      (State.ofTokens maxDepth (tokens ++ [finish])) := by
  have same := tokens_ofTokens_concat maxDepth tokens finish
  have one := weight_pos finish
  have total : weigh (tokens ++ [finish]) = weigh tokens + weight finish := weigh_append tokens [finish]
  refine ⟨.inr ?_, .inr ?_, ?_, ?_, .inl trivial⟩
  · rw [bound_ofTokens, same]
    omega
  · rw [same]
    omega
  · rw [same]
    rcases Nat.lt_or_ge (longsIn tokens) (capacity 8) with few | many
    · exact .inr few
    · exact .inl (.inr (.overflow many))
  · rw [same]
    by_cases none : ∀ token ∈ tokens, token.kind ≠ .kwOperator
    · exact .inr none
    · rw [not_forall] at none
      rcases none with ⟨token, found⟩
      rw [Classical.not_imp, not_not] at found
      exact .inl fun flaw => .inr (.flaw flaw found.1 found.2)

/-! ## Misfits -/

/-- A production that never stops at a misfit. -/
def Recovers (production : Production α) : Prop :=
  ∀ before after, production before ≠ .error .misfit after

theorem Recovers.bind {production : Production α} {next : α → Production β}
    (first : Recovers production) (rest : ∀ value, Recovers (next value)) :
    Recovers (production >>= next) := by
  intro before after
  cases result : production before with
  | error stop stopped =>
    rw [bind_of_error result]
    intro same
    cases same
    exact first before after result
  | ok value middle =>
    rw [bind_of_ok result]
    exact rest value middle after

theorem Recovers.pure (value : α) : Recovers (Pure.pure value : Production α) :=
  fun _ _ same => nomatch same

theorem recovers_recovering (production : Production Tree.Plain) :
    Recovers (recovering production) := by
  intro before after
  unfold recovering
  cases production before with
  | ok tree middle => exact fun same => nomatch same
  | error stop middle =>
    cases stop with
    | misfit => exact fun same => nomatch same
    | _ => exact fun same => nomatch same

theorem recovers_repeatWithin {step : α → Production (Turn α)}
    (turns : ∀ value, Recovers (step value)) (count : Nat) (value : α) :
    Recovers (repeatWithin step count value) := by
  induction count generalizing value with
  | zero => exact fun _ _ same => nomatch same
  | succ count ih =>
    refine .bind (turns value) fun turn => ?_
    cases turn with
    | again next => exact ih next
    | done last => exact .pure last

theorem recovers_repeatFrom {start : α} {step : α → Production (Turn α)}
    (turns : ∀ value, Recovers (step value)) : Recovers (repeatFrom start step) :=
  fun before => recovers_repeatWithin turns before.bound start before

theorem recovers_declarationList (g : Productions) (place : Place) :
    Recovers (declarationList g place) := by
  refine recovers_repeatFrom fun declarations => ?_
  have asked : Recovers kind := fun _ _ same => nomatch same
  refine .bind asked fun found => ?_
  split
  · exact .pure _
  · split
    · have passed : Recovers (modify State.behindNext : Production PUnit) :=
        fun _ _ same => nomatch same
      have reported : Recovers (report .declarationExpected []) := fun _ _ same => nomatch same
      exact .bind reported fun _ => .bind passed fun _ => .pure _
    · exact .pure _
  · exact .bind (recovers_recovering _) fun _ => .pure _

/-- A text without an end inside it is parsed up to its end, unless there is a reason why it
cannot be. -/
theorem unit_halts (maxDepth : Nat) (finish : Token)
    (noEnd : ∀ token ∈ tokens, token.kind ≠ .endOfFile) :
    (∃ tree after, unit (State.ofTokens maxDepth (tokens ++ [finish])) = .ok tree after ∧
      after.tokens = []) ∨
    ∃ stop after, unit (State.ofTokens maxDepth (tokens ++ [finish])) = .error stop after ∧
      Unparsed tokens stop := by
  have list := declarationList_runs (lasting_productions (.ofTokens tokens) _)
    (ready_ofTokens maxDepth finish) .file
  rw [← bound_ofTokens maxDepth] at list
  have ended := list.ended
  have never := recovers_declarationList
    (productions (State.ofTokens maxDepth (tokens ++ [finish])).bound) .file
    (State.ofTokens maxDepth (tokens ++ [finish]))
  have runs : unit (State.ofTokens maxDepth (tokens ++ [finish])) =
      (declarationList (productions (State.ofTokens maxDepth (tokens ++ [finish])).bound) .file >>=
        fun trees => pure (Tree.seq trees)) (State.ofTokens maxDepth (tokens ++ [finish])) := rfl
  cases result : declarationList (productions (State.ofTokens maxDepth (tokens ++ [finish])).bound)
      .file (State.ofTokens maxDepth (tokens ++ [finish])) with
  | error stop after =>
    rw [result] at ended
    rw [runs, bind_of_error result]
    refine .inr ⟨stop, after, rfl, ended.2.resolve_left ?_⟩
    rintro rfl
    exact never after result
  | ok trees after =>
    rw [result] at ended
    rw [runs, bind_of_ok result]
    refine .inl ⟨Tree.seq trees, after, rfl, ?_⟩
    have isEnd := declarationList_ends result
    rcases ended.1.passed with ⟨passed, halved⟩
    rw [tokens_ofTokens_concat] at halved
    cases left : after.tokens with
    | nil => rfl
    | cons token rest =>
      rw [left] at isEnd halved
      exact absurd isEnd (halved.noEnd noEnd token
        (List.mem_append_right _ List.mem_cons_self))

/-! ## Turns -/

/-- A turn of a loop that goes on has passed a token. -/
def PassesOn (step : α → Production (Turn α)) : Prop :=
  ∀ value before next after, step value before = .ok (.again next) after →
    ∃ passed, passed ≠ [] ∧ Halved before.tokens (passed ++ after.tokens)

/-- The loops of the parser pass a token in each turn. -/
structure TurnsPass (g : Productions) : Prop where
  declarations (place : Place) : PassesOn (declarationTurn g place)
  statements : PassesOn (statementTurn g)
  enumerators : PassesOn (enumeratorTurn g)
  initializers : PassesOn (initializerTurn g)
  specifiers (place : Place) : PassesOn (specifier g place)
  suffixes (form : DeclaratorForm) : PassesOn (suffixTurn g form)

theorem Runs.passesOn {terms : Terms} {last : Nat} {post : Turn α → State → Prop}
    {step stepTwin : α → Production (Turn α)}
    (turns : ∀ value state,
      Runs terms state (step value) (stepTwin value) (Turn.price last) post) :
    PassesOn step := by
  intro value before next after runs
  have ended := (turns value before).ended
  rw [runs] at ended
  rcases ended with ⟨onward, pays, _⟩
  rcases onward.passed with ⟨passed, halved⟩
  refine ⟨passed, ?_, halved⟩
  rintro rfl
  have same := halved.weigh_eq
  have pays : weigh after.tokens + 1 ≤ weigh before.tokens := pays
  rw [List.nil_append] at same
  omega

theorem turnsPass_productions (level : Nat) : TurnsPass (productions level) := by
  have lasting := lasting_productions .lenient level
  have ready (state : State) : Ready .lenient level 2 state := ready_lenient
  exact
    { declarations := fun place => Runs.passesOn fun value state =>
        declarationTurn_runs lasting (ready state) place value
      statements := Runs.passesOn fun value state => statementTurn_runs lasting (ready state) value
      enumerators := Runs.passesOn fun value state =>
        enumeratorTurn_runs lasting (ready state) value
      initializers := Runs.passesOn fun value state =>
        initializerTurn_runs lasting (ready state) value
      specifiers := fun place => Runs.passesOn fun _ state =>
        specifier_runs lasting (ready state) place (.inl trivial)
      suffixes := fun form => Runs.passesOn fun value state =>
        suffixTurn_runs lasting (ready state) form value }

/-! ## Looking ahead -/

/-- What stands behind template arguments is less than what they begin. -/
theorem length_behindAngles? {angles parens : Int} {tokens behind : List Token}
    (found : behindAngles? angles parens tokens = some behind) :
    behind.length < tokens.length := by
  induction tokens generalizing angles parens with
  | nil => cases found
  | cons token rest ih =>
    have passed (angles parens : Int)
        (next : (if angles ≤ 0 then some rest else behindAngles? angles parens rest) =
          some behind) : behind.length < (token :: rest).length := by
      split at next
      · cases next
        exact Nat.lt_succ_self _
      · exact Nat.lt_succ_of_lt (ih next)
    unfold behindAngles? at found
    dsimp only at found
    split at found
    · exact passed _ _ found
    · exact passed _ _ found
    · exact passed _ _ found
    · exact passed _ _ found
    · exact passed _ _ found
    · cases found
    · cases found
    · cases found
    · cases found
    · exact passed _ _ found

theorem length_behindComponent? {templateNames : List String} {name : String}
    {rest behind : List Token} (found : behindComponent? templateNames name rest = some behind) :
    behind.length ≤ rest.length := by
  unfold behindComponent? at found
  split at found
  · exact Nat.le_of_lt (length_behindAngles? found)
  · cases found
    exact Nat.le_refl _

/-- The tokens bound how many components of a name are looked at. -/
theorem behindComponents?_add (templateNames : List String) {count : Nat} (more : Nat)
    {tokens : List Token} (enough : tokens.length < count) :
    behindComponents? templateNames (count + more) tokens =
      behindComponents? templateNames count tokens := by
  induction count generalizing tokens with
  | zero => exact absurd enough (Nat.not_lt_zero _)
  | succ count ih =>
    cases tokens with
    | nil => rw [Nat.add_right_comm]; rfl
    | cons token rest =>
      rw [Nat.add_right_comm, behindComponents?, behindComponents?]
      cases found : behindComponent? templateNames token.text rest with
      | none => rfl
      | some behind =>
        have shorter := length_behindComponent? found
        have again : (behind.drop 1).length < count := by
          rw [List.length_drop]
          rw [List.length_cons] at enough
          omega
        dsimp only [Option.bind_eq_bind, Option.bind_some]
        rw [ih again]

/-! ## Resuming -/

/-- Parsing resumes behind at least one token, unless there is none or the one in front closes a
brace that was not opened. -/
def Resumes (tokens : List Token) : Prop :=
  ∃ skipped, tokens = skipped ++ resumed 0 tokens ∧
    (skipped = [] → tokens = [] ∨ kindOf tokens = .closeBrace)

theorem resumes (tokens : List Token) : Resumes tokens := by
  rcases Reads.suffix_resumed 0 tokens with ⟨skipped, whole⟩
  refine ⟨skipped, whole.symm, ?_⟩
  rintro rfl
  rw [List.nil_append] at whole
  cases tokens with
  | nil => exact .inl rfl
  | cons token rest =>
    refine .inr (not_not.mp fun opened => ?_)
    have drops := weigh_resumed_cons 0 rest fun brace => absurd brace opened
    have one := weight_pos token
    rw [whole, weigh_cons] at drops
    omega

end Grammar

open Grammar

/-- A source text is parsed up to its end, or a type in it cannot be counted or shown.  Each turn
of a loop passes a token, so does resuming where nothing is closed, and how many components of a
name are looked at is bounded by the tokens. -/
theorem parse_halts (file source : String) (options : ParseOptions) :
    ((∃ parsed, parse file source options = .ok parsed) ∨
      ∃ stop, parse file source options = .error stop ∧
        Unparsed (tokenize file options.cxx source).1 stop) ∧
    (∀ tree after,
      unit (State.ofTokens options.maxDepth (tokenize file options.cxx source).1) =
        .ok tree after → after.tokens = []) ∧
    (∀ level, TurnsPass (productions level)) ∧
    (∀ tokens, Resumes tokens) ∧
    ∀ templateNames more tokens,
      behindComponents? templateNames (tokens.length + 1 + more) tokens =
        behindComponents? templateNames (tokens.length + 1) tokens := by
  have scanned := Token.tokenize_eq file options.cxx source
  have halts := unit_halts options.maxDepth (Token.endAt source.utf8ByteSize)
    (Token.laid_ofText file options.cxx source).noEnd
  rw [← scanned] at halts
  refine ⟨?_, fun tree after runs => ?_, turnsPass_productions, resumes,
    fun templateNames more tokens => behindComponents?_add templateNames more (Nat.lt_succ_self _)⟩
  · unfold parse
    dsimp only
    rcases halts with ⟨tree, after, runs, _⟩ | ⟨stop, after, runs, unparsed⟩
    · rw [runs]
      exact .inl ⟨_, rfl⟩
    · rw [runs, scanned]
      exact .inr ⟨stop, rfl, unparsed.append _⟩
  · rcases halts with ⟨_, _, ended, nothing⟩ | ⟨_, _, stopped, _⟩
    · rw [runs] at ended
      cases ended
      exact nothing
    · rw [runs] at stopped
      cases stopped

/-- A conversion to a template-id with so long an argument that it is cut. -/
def cutConversion : String :=
  let name := String.ofList (List.replicate 62 'x')
  "class " ++ name ++ ";operator A<" ++ name ++ "<" ++ name ++ ">>();"

/-- Where the cut is inside a template-id, this cannot be shown. -/
theorem parse_halts_cut :
    (parse "" cutConversion {}).isOk = false ∧
      ∃ stop, parse "" cutConversion {} = .error stop ∧
        Unparsed (tokenize "" true cutConversion).1 stop := by
  have stops : (parse "" cutConversion {}).isOk = false := by decide +kernel
  refine ⟨stops, (parse_halts "" cutConversion {}).1.resolve_left ?_⟩
  rintro ⟨parsed, parses⟩
  rw [parses] at stops
  cases stops

end CppNames
