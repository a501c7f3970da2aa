import CppNames.Proofs.Travel.Declaration
import CppNames.Proofs.Tree.Origin

namespace CppNames
namespace Grammar

open Token

/-!
# The order of the tokens that did not fit

A token is reported when it is the next one.  The next token never moves back: a step passes tokens,
splits a `>>` in two that begin where it began and behind, or leaves the tokens alone.  So the
reports come in the order of their tokens, although a production may be tried at a token that was
reported before, and although lookahead reaches any distance.
-/

/-! ## The first of the tokens that are left -/

/-- Where the first of some tokens begins, or else a given position. -/
def frontPos (finish : Nat) : List Token → Nat
  | [] => finish
  | token :: _ => token.pos

theorem frontPos_splitFirst (finish : Nat) (tokens : List Token) :
    frontPos finish (splitFirst tokens) = frontPos finish tokens := by
  cases tokens with
  | nil => rfl
  | cons token rest =>
    simp only [splitFirst]
    split
    · next left right halves =>
      rcases eq_of_halves? halves with ⟨_, rfl, _⟩
      rfl
    · rfl

/-- Tokens that come one behind the other up to a position. -/
structure Ascends (finish : Nat) (tokens : List Token) : Prop where
  ordered : tokens.Pairwise fun left right => left.pos ≤ right.pos
  before : ∀ token ∈ tokens, token.pos ≤ finish

theorem Ascends.suffix {finish : Nat} {tokens later : List Token} (ascends : Ascends finish tokens)
    (suffix : later <:+ tokens) : Ascends finish later :=
  ⟨ascends.ordered.sublist suffix.sublist, fun token member =>
    ascends.before token (suffix.subset member)⟩

theorem Ascends.frontPos_le {finish : Nat} {tokens later : List Token}
    (ascends : Ascends finish tokens) (suffix : later <:+ tokens) :
    frontPos finish tokens ≤ frontPos finish later := by
  cases tokens with
  | nil => rw [List.suffix_nil.mp suffix]
  | cons first rest =>
    rcases List.suffix_cons_iff.mp suffix with same | suffix
    · rw [same]
    · cases later with
      | nil => exact ascends.before first (List.mem_cons_self ..)
      | cons next more =>
        exact (List.pairwise_cons.mp ascends.ordered).1 next (suffix.subset (List.mem_cons_self ..))

/-! ## Reports in order -/

/-- The state of a parser over some scanned tokens, with the token that ends them. -/
structure InOrderUpTo (scanned : List Token) (finish : Token) (state : State) : Prop where
  left : ∃ split, Halved scanned split ∧ state.tokens <:+ split
  ends : state.finish = finish
  stems : ∀ misfit ∈ state.misfits, misfit.token = finish ∨ StemsFrom scanned misfit.token
  ordered : state.misfits.Pairwise fun left right => left.token.pos ≤ right.token.pos
  reached : ∀ misfit ∈ state.misfits, misfit.token.pos ≤ frontPos finish.pos state.tokens

section

variable {scanned : List Token} {finish : Token} {start before after : State}

/-- Passing tokens. -/
theorem InOrderUpTo.passed (ordered : InOrderUpTo scanned finish before)
    (ascends : ∀ split, Halved scanned split → Ascends finish.pos split)
    (tokens : after.tokens <:+ before.tokens) (same : after.finish = before.finish)
    (misfits : after.misfits = before.misfits) : InOrderUpTo scanned finish after := by
  rcases ordered.left with ⟨split, halved, suffix⟩
  have onward := ((ascends split halved).suffix suffix).frontPos_le tokens
  refine ⟨⟨split, halved, tokens.trans suffix⟩, same.trans ordered.ends, ?_, ?_, ?_⟩
  · rw [misfits]
    exact ordered.stems
  · rw [misfits]
    exact ordered.ordered
  · rw [misfits]
    exact fun misfit member => (ordered.reached misfit member).trans onward

/-- Splitting a `>>` in front. -/
theorem InOrderUpTo.split (ordered : InOrderUpTo scanned finish before) :
    InOrderUpTo scanned finish { before with tokens := splitFirst before.tokens } := by
  rcases ordered.left with ⟨split, halved, front, rfl⟩
  refine ⟨⟨front ++ splitFirst before.tokens, ?_, List.suffix_append ..⟩, ordered.ends,
    ordered.stems, ordered.ordered, fun misfit member => ?_⟩
  · exact halved.trans ((Halved.refl front).append (halved_splitFirst before.tokens))
  · change misfit.token.pos ≤ frontPos finish.pos (splitFirst before.tokens)
    rw [frontPos_splitFirst]
    exact ordered.reached misfit member

/-- The next token is the end, or it stems from the scan. -/
theorem InOrderUpTo.next (ordered : InOrderUpTo scanned finish before)
    (noEnd : ∀ token ∈ scanned, token.kind ≠ .endOfFile) :
    (before.next = finish ∨ StemsFrom scanned before.next) ∧
      before.next.pos = frontPos finish.pos before.tokens := by
  rcases ordered.left with ⟨split, halved, suffix⟩
  unfold State.next
  cases front : before.tokens with
  | nil =>
    refine ⟨.inl ordered.ends, ?_⟩
    change before.finish.pos = finish.pos
    rw [ordered.ends]
  | cons token rest =>
    refine ⟨.inr (halved.stemsFrom (fun token member => ⟨member, noEnd token member⟩) token ?_), rfl⟩
    rw [front] at suffix
    exact suffix.subset (List.mem_cons_self ..)

/-- Reporting the next token. -/
theorem InOrderUpTo.report (ordered : InOrderUpTo scanned finish before)
    (noEnd : ∀ token ∈ scanned, token.kind ≠ .endOfFile) (message : Message)
    (arguments : List String) :
    InOrderUpTo scanned finish
      { before with misfits := before.misfits ++ [⟨before.next, message, arguments⟩] } := by
  rcases ordered.next noEnd with ⟨stems, front⟩
  refine ⟨ordered.left, ordered.ends, ?_, ?_, ?_⟩
  · intro misfit member
    rcases List.mem_append.mp member with old | new
    · exact ordered.stems misfit old
    · rw [List.mem_singleton.mp new]
      exact stems
  · refine List.pairwise_append.mpr ⟨ordered.ordered, List.pairwise_singleton .., ?_⟩
    intro misfit old last new
    rw [List.mem_singleton.mp new]
    exact (ordered.reached misfit old).trans (Nat.le_of_eq front.symm)
  · intro misfit member
    rcases List.mem_append.mp member with old | new
    · exact ordered.reached misfit old
    · rw [List.mem_singleton.mp new]
      exact Nat.le_of_eq front

variable (ascends : ∀ split, Halved scanned split → Ascends finish.pos split)
  (noEnd : ∀ token ∈ scanned, token.kind ≠ .endOfFile)
include ascends noEnd

theorem InOrderUpTo.advance (ordered : InOrderUpTo scanned finish before)
    (advance : Advance before after) : InOrderUpTo scanned finish after := by
  cases advance with
  | pass _ => exact ordered.passed ascends (List.tail_suffix _) rfl rfl
  | typeKeyword _ => exact ordered.passed ascends (List.tail_suffix _) rfl rfl
  | split => exact ordered.split
  | report message arguments => exact ordered.report noEnd message arguments
  | resume => exact ordered.passed ascends (Reads.suffix_resumed 0 _) rfl rfl
  | aside aside =>
    have same : after.tokens <:+ before.tokens := by simp only [aside.tokens, List.suffix_rfl]
    exact ordered.passed ascends same aside.finish aside.misfits

/-- Wherever a parser is on its way, the reports so far are in order and lie behind it. -/
theorem inOrderUpTo_of_reached {state : State} (begins : InOrderUpTo scanned finish start)
    (reached : Reached start state) : InOrderUpTo scanned finish state := by
  induction reached with
  | start => exact begins
  | step _ advance ih => exact ih.advance ascends noEnd advance
  | specifier _ _ ih => exact ih.passed ascends (List.tail_suffix _) rfl rfl
  | learnClass _ _ _ _ _ _ ih => exact ih.passed ascends List.suffix_rfl rfl rfl
  | enter _ _ _ _ ih => exact ih.passed ascends List.suffix_rfl rfl rfl
  | leave _ ih => exact ih.passed ascends List.suffix_rfl rfl rfl
  | learnFunction _ _ _ _ _ ih => exact ih.passed ascends List.suffix_rfl rfl rfl

end

/-! ## The tokens of a text -/

/-- Splitting leaves the tokens of a text in order, in front of its end. -/
theorem ascends_of_halved {source : String} {scanned split : List Token}
    (laid : Laid source scanned) (halved : Halved scanned split) :
    Ascends source.utf8ByteSize split := by
  have inOrder := halved.inOrder laid.inOrder laid.shifts
  refine ⟨inOrder.ordered.imp_of_mem fun first _ apart => ?_, fun token member => ?_⟩
  · exact (Nat.le_of_lt (inOrder.nonempty _ first)).trans apart
  · -- a `>>` covers two bytes, so its second half has room as well
    have room : ∀ token ∈ scanned, token.pos ≤ source.utf8ByteSize ∧
        (token.kind = .greaterGreater → token.pos + 1 ≤ source.utf8ByteSize) := by
      intro token member
      have stop : token.pos + token.text.utf8ByteSize ≤ source.utf8ByteSize :=
        (laid.stops token member).le_utf8ByteSize
      refine ⟨(Nat.le_add_right _ _).trans stop, fun shift => ?_⟩
      rw [laid.shifts token member shift] at stop
      have two : (">>" : String).utf8ByteSize = 2 := rfl
      omega
    refine (halved.all (fun shift isShift holds => ?_) room token member).1
    exact ⟨⟨holds.1, Token.Kind.noConfusion⟩, ⟨holds.2 isShift, Token.Kind.noConfusion⟩⟩

end Grammar

theorem Token.StemsFrom.append {scanned : List Token} {token : Token}
    (stems : StemsFrom scanned token) (more : List Token) : StemsFrom (scanned ++ more) token := by
  rcases stems with ⟨member, other⟩ | ⟨shift, member, halves⟩
  · exact .inl ⟨List.mem_append_left _ member, other⟩
  · exact .inr ⟨shift, List.mem_append_left _ member, halves⟩

open Grammar Token

/-- The tokens that did not fit a text come in the order of the source.  Each of them is a token of
the scan, a half of a `>>`, or the end of the text, and for each there is one report of the parser,
in the same order and at the place of that token. -/
theorem errors_of_parse {file source : String} {options : ParseOptions} {parsed : Parsed}
    (parses : parse file source options = .ok parsed) :
    parsed.errors.Pairwise (fun left right => left.pos ≤ right.pos) ∧
      (∀ error ∈ parsed.errors, error = Token.endAt source.utf8ByteSize ∨
        StemsFrom (tokenize file options.cxx source).1 error) ∧
      ∃ reports, parsed.log = (tokenize file options.cxx source).2 ++ reports ∧
        List.Forall₂ (fun error report => report.file = some file ∧ report.span = some error.span)
          parsed.errors reports := by
  have scanned := tokenize_eq file options.cxx source
  have laid := laid_ofText file options.cxx source
  have begins : InOrderUpTo (Scanner.ofText file options.cxx source).ahead
      (Token.endAt source.utf8ByteSize)
      (State.ofTokens options.maxDepth (tokenize file options.cxx source).1) := by
    rw [scanned]
    refine ⟨⟨_, .refl _, ?_⟩, List.getLastD_concat, ?_, .nil, ?_⟩
    · simp only [tokens_ofTokens_concat, List.suffix_rfl]
    · exact fun _ member => absurd member List.not_mem_nil
    · exact fun _ member => absurd member List.not_mem_nil
  have ends := inOrderUpTo_of_reached (fun _ halved => ascends_of_halved laid halved) laid.noEnd
    begins (unit_reached _)
  rcases of_parse parses with ⟨tree, state, runs, rfl⟩
  rw [runs] at ends
  refine ⟨List.pairwise_map.mpr ends.ordered, fun error member => ?_,
    state.misfits.map (·.diagnostic file), rfl, ?_⟩
  · rcases List.mem_map.mp member with ⟨misfit, inside, rfl⟩
    rw [scanned]
    exact (ends.stems misfit inside).imp_right fun stems => stems.append _
  · refine List.forall₂_map_left_iff.mpr (List.forall₂_map_right_iff.mpr ?_)
    exact List.forall₂_same.mpr fun misfit _ => ⟨rfl, rfl⟩

/-- A half of a `>>`, a brace and the end of the text do not fit. -/
theorem errors_of_parse_thrice :
    ∃ parsed, parse "" "template<class>class A;A<int>>x;\x7dint y" {} = .ok parsed ∧
      parsed.errors = [⟨.greater, ">", 29⟩, ⟨.closeBrace, "\x7d", 32⟩, Token.endAt 38] ∧
      parsed.errors.Pairwise (fun left right => left.pos ≤ right.pos) := by
  have read : (parse "" "template<class>class A;A<int>>x;\x7dint y" {}).toOption.map (·.errors) =
      some [⟨.greater, ">", 29⟩, ⟨.closeBrace, "\x7d", 32⟩, Token.endAt 38] := by decide +kernel
  cases parses : parse "" "template<class>class A;A<int>>x;\x7dint y" {} with
  | error stop => rw [parses] at read; cases read
  | ok parsed =>
    rw [parses] at read
    exact ⟨parsed, rfl, Option.some.inj read, (errors_of_parse parses).1⟩

end CppNames
