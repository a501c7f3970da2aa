import CppNames.Proofs.Token.Piece
import Mathlib.Data.List.DropRight

namespace CppNames
namespace Token

/-!
# The form of a piece

A piece of a text has the form that its role promises, whatever the text is.  A comment ends
where its closing mark stands first, or with the text; a directive ends with the first newline
that is not continued, or with the text; an invalid character is one at which no token could
begin.  `Formed` says this of the characters of a piece and of the text behind it, without
looking at how the piece was found.
-/

/-- Whether a line ends in a backslash, not counting carriage returns. -/
def Continued (line : List Char) : Prop := (line.rdropWhile (· == '\r')).getLast? = some '\\'

/-- The characters of a directive and the text behind it.  Each newline in the directive is
continued, except for one at its end; without one the text ends there. -/
structure Line (text behind : List Char) : Prop where
  joined : ∀ front back, text = front ++ '\n' :: back → back ≠ [] → Continued front
  ended : behind = [] ∨ ∃ front, text = front ++ ['\n'] ∧ ¬ Continued front

/-- Neither a word nor a literal nor a punctuator begins with a character where it stands. -/
structure Stray (c : Char) (behind : List Char) : Prop where
  noDigit : c.isDigit = false
  noLetter : isIdentifierStart c = false
  noQuote : c ≠ '"' ∧ c ≠ '\''
  noPunctuator : ∀ entry ∈ punctuators, ¬ entry.1.toList <+: c :: behind

/-- The characters that a piece of a given role may have in front of the rest of a text. -/
inductive Formed : Role → (text behind : List Char) → Prop
  | newline {behind : List Char} : Formed .newline ['\n'] behind
  | blank {c : Char} {behind : List Char} (blank : isBlank c = true) : Formed .blank [c] behind
  | lineComment {body behind : List Char} (line : '\n' ∉ body)
      (ended : behind = [] ∨ behind.head? = some '\n') :
      Formed .lineComment ('/' :: '/' :: body) behind
  | closedComment {body behind : List Char} (first : ¬ ['*', '/'] <:+: body) :
      Formed (.blockComment true) ('/' :: '*' :: body ++ ['*', '/']) behind
  | openComment {body : List Char} (unclosed : ¬ ['*', '/'] <:+: body) :
      Formed (.blockComment false) ('/' :: '*' :: body) []
  | directive {body behind : List Char} (line : Line ('#' :: body) behind) :
      Formed .directive ('#' :: body) behind
  | splice {behind : List Char} (breaks : behind.head? = some '\n' ∨ behind.head? = some '\r') :
      Formed .splice ['\\'] behind
  | invalid {c : Char} {behind : List Char} (stray : Stray c behind) : Formed .invalid [c] behind
  | token {kind : Kind} {closed : Bool} {c : Char} {text behind : List Char}
      (noEnd : kind ≠ .endOfFile) (shift : kind = .greaterGreater → c :: text = ['>', '>']) :
      Formed (.token kind closed) (c :: text) behind

/-! ## Comments and directives -/

theorem take_runLength (test : Char → Bool) (text : List Char) :
    text.take (runLength test text) = text.takeWhile test :=
  (List.prefix_iff_eq_take.mp (List.takeWhile_prefix test)).symm

theorem drop_runLength (test : Char → Bool) (text : List Char) :
    text.drop (runLength test text) = text.dropWhile test := by
  have parts := List.take_append_drop (runLength test text) text
  rw [take_runLength] at parts
  exact List.append_cancel_left (parts.trans List.takeWhile_append_dropWhile.symm)

theorem formed_lineComment (rest : List Char) :
    Formed .lineComment ('/' :: ('/' :: rest).take (runLength (· != '\n') ('/' :: rest)))
      (('/' :: rest).drop (runLength (· != '\n') ('/' :: rest))) := by
  rw [take_runLength, drop_runLength, List.takeWhile_cons_of_pos (by decide),
    List.dropWhile_cons_of_pos (by decide)]
  refine .lineComment (fun member => ?_) ?_
  · exact absurd (List.mem_takeWhile_imp member) (by decide)
  · cases found : rest.dropWhile (· != '\n') with
    | nil => exact .inl rfl
    | cons c more =>
      have there : rest.dropWhile (· != '\n') ≠ [] := by rw [found]; exact List.cons_ne_nil _ _
      have head := List.head_dropWhile_not (· != '\n') there
      simp only [found, List.head_cons] at head
      exact .inr (congrArg some (by simpa using head))

/-- The extent of a block comment: up to the first closing mark, or the whole text. -/
theorem commentExtent_spec (text : List Char) :
    if (commentExtent text).1 then ∃ body, ¬ ['*', '/'] <:+: body ∧
      text.take (commentExtent text).2 = body ++ ['*', '/']
    else ¬ ['*', '/'] <:+: text ∧ text.length ≤ (commentExtent text).2 := by
  fun_induction commentExtent text with
  | case1 => exact ⟨by decide, Nat.le_refl _⟩
  | case2 rest => exact ⟨[], by decide, rfl⟩
  | case3 c rest noClose closed count found ih =>
    rw [found] at ih
    have notHere : ∀ more, c :: rest = '*' :: '/' :: more → False := by
      intro more same
      cases same
      exact noClose more rfl rfl
    cases closed with
    | true =>
      rcases ih with ⟨body, first, same⟩
      have same : rest.take count = body ++ ['*', '/'] := same
      refine ⟨c :: body, fun inside => ?_, by rw [List.take_succ_cons, same, List.cons_append]⟩
      rcases List.infix_cons_iff.mp inside with front | later
      · -- the closing mark would stand at the front of the text
        rcases front with ⟨more, whole⟩
        rcases List.cons.inj whole with ⟨rfl, whole⟩
        have parts := List.take_append_drop count rest
        rw [same, List.append_assoc] at parts
        refine notHere (more ++ (['*', '/'] ++ rest.drop count)) ?_
        rw [← List.cons_append, ← List.cons_append]
        change _ = (['*', '/'] ++ more) ++ _
        rw [whole, List.cons_append, parts]
      · exact first later
    | false =>
      refine ⟨fun inside => ?_, Nat.succ_le_succ ih.2⟩
      rcases List.infix_cons_iff.mp inside with ⟨more, whole⟩ | later
      · exact notHere more whole.symm
      · exact ih.1 later

theorem formed_blockComment (body : List Char) :
    Formed (.blockComment (commentExtent body).1)
      ('/' :: ('*' :: body).take ((commentExtent body).2 + 1))
      (('*' :: body).drop ((commentExtent body).2 + 1)) := by
  have spec := commentExtent_spec body
  rw [List.take_succ_cons, List.drop_succ_cons]
  generalize commentExtent body = extent at spec
  rcases extent with ⟨closed, count⟩
  cases closed with
  | true =>
    rcases spec with ⟨inside, first, same⟩
    have same : body.take count = inside ++ ['*', '/'] := same
    change Formed _ ('/' :: '*' :: body.take count) _
    rw [same]
    exact .closedComment first
  | false =>
    change Formed _ ('/' :: '*' :: body.take count) (body.drop count)
    rw [List.take_of_length_le spec.2, List.drop_eq_nil_of_le spec.2]
    exact .openComment spec.1

theorem continued_newline (line : List Char) : ¬ Continued (line ++ ['\n']) := by
  simp [Continued]

theorem continued_return (line : List Char) : Continued (line ++ ['\r']) ↔ Continued line := by
  simp [Continued]

theorem continued_other (line : List Char) {c : Char} (other : c ≠ '\r') :
    Continued (line ++ [c]) ↔ (c == '\\') = true := by
  simp [Continued, other]

/-- A newline in a line with one more character is that character or stood there before. -/
theorem newline_concat {seen front back : List Char} {c : Char}
    (same : seen ++ [c] = front ++ '\n' :: back) :
    (c = '\n' ∧ front = seen ∧ back = []) ∨ ∃ inner, seen = front ++ '\n' :: inner := by
  rcases List.eq_nil_or_concat back with rfl | ⟨inner, last, rfl⟩
  · rcases List.append_inj' same rfl with ⟨rfl, single⟩
    exact .inl ⟨(List.cons.inj single).1, rfl, rfl⟩
  · rw [List.concat_eq_append, ← List.cons_append, ← List.append_assoc] at same
    exact .inr ⟨inner, (List.append_inj' same rfl).1⟩

/-- What is read of a directive is the rest of its line, given the characters in front. -/
theorem line_directiveExtent (continued : Bool) (seen rest : List Char)
    (holds : continued = true ↔ Continued seen)
    (before : ∀ front back, seen = front ++ '\n' :: back → Continued front) :
    Line (seen ++ rest.take (directiveExtent continued rest))
      (rest.drop (directiveExtent continued rest)) := by
  -- the flag tells whether the characters read so far are continued
  fun_induction directiveExtent continued rest generalizing seen with
  | case1 continued =>
    rw [List.take_nil, List.append_nil]
    exact ⟨fun front back same _ => before front back same, .inl rfl⟩
  | case2 rest ih =>
    have read := ih (seen ++ ['\n']) (by simp [continued_newline]) ?_
    · rwa [List.append_assoc, List.singleton_append] at read
    · intro front back same
      rcases newline_concat same with ⟨-, rfl, -⟩ | ⟨inner, same⟩
      · exact holds.mp rfl
      · exact before front inner same
  | case3 continued rest notContinued =>
    refine ⟨fun front back same more => ?_, .inr ⟨seen, rfl, fun line => notContinued (holds.mpr line)⟩⟩
    rcases newline_concat same with ⟨-, -, none⟩ | ⟨inner, same⟩
    · exact absurd none more
    · exact before front inner same
  | case4 continued rest ih =>
    have read := ih (seen ++ ['\r']) (holds.trans (continued_return seen).symm) ?_
    · rwa [List.append_assoc, List.singleton_append] at read
    · intro front back same
      rcases newline_concat same with ⟨impossible, -, -⟩ | ⟨inner, same⟩
      · exact absurd impossible (by decide)
      · exact before front inner same
  | case5 continued c rest noNewline noReturn ih =>
    have read := ih (seen ++ [c]) (continued_other seen noReturn).symm ?_
    · rwa [List.append_assoc, List.singleton_append] at read
    · intro front back same
      rcases newline_concat same with ⟨isNewline, -, -⟩ | ⟨inner, same⟩
      · exact absurd isNewline noNewline
      · exact before front inner same

theorem formed_directive (rest : List Char) :
    Formed .directive ('#' :: rest.take (directiveExtent false rest))
      (rest.drop (directiveExtent false rest)) := by
  have first : ¬ Continued ['#'] := continued_other [] (by decide) |>.not.mpr (by decide)
  refine .directive (line_directiveExtent false ['#'] rest ?_ fun front back same => ?_)
  · simp [first]
  · have member : '\n' ∈ ['#'] := by rw [same]; exact List.mem_append_right _ (List.mem_cons_self ..)
    exact absurd member (by decide)

/-! ## Tokens and invalid characters -/

/-- What was found among table entries is not lost among more. -/
theorem isSome_foldl_longer (entries : List (String × Kind)) (best : String × Kind) :
    (entries.foldl (fun best entry => some (best.elim entry (longer · entry)))
      (some best)).isSome = true := by
  induction entries generalizing best with
  | nil => rfl
  | cons entry entries ih => exact ih _

/-- Where no punctuator is read, none of the table stands at the front of the text. -/
theorem punctuator?_eq_none {text : List Char} (none : punctuator? text = none) :
    ∀ entry ∈ punctuators, ¬ entry.1.toList <+: text := by
  intro entry member front
  have found : entry ∈ punctuators.filter fun entry => entry.1.toList.isPrefixOf text :=
    List.mem_filter.mpr ⟨member, List.isPrefixOf_iff_prefix.mpr front⟩
  unfold punctuator? at none
  cases listed : punctuators.filter fun entry => entry.1.toList.isPrefixOf text with
  | nil => rw [listed] at found; exact absurd found List.not_mem_nil
  | cons first entries =>
    rw [listed, List.foldl_cons] at none
    have some := isSome_foldl_longer entries first
    rw [show (Option.none (α := String × Kind)).elim first (longer · first) = first from rfl] at none
    rw [none] at some
    cases some

/-- Where no token begins, one stray character is read. -/
theorem role_of_nextToken {cxx : Bool} {c : Char} {rest : List Char} {role : Role} {count : Nat}
    (read : nextToken cxx c rest = ⟨role, count⟩) :
    (∃ kind closed, role = .token kind closed) ∨ (role = .invalid ∧ count = 0 ∧ Stray c rest) := by
  unfold nextToken at read
  split at read
  · cases read
    exact .inl ⟨_, _, rfl⟩
  · next noNumber =>
    split at read
    · cases read
      exact .inl ⟨_, _, rfl⟩
    · next noQuote =>
      split at read
      · unfold word at read
        dsimp only at read
        split at read
        · split at read
          · cases read
            exact .inl ⟨_, _, rfl⟩
          · cases read
            exact .inl ⟨_, _, rfl⟩
          · cases read
            exact .inl ⟨_, _, rfl⟩
        · cases read
          exact .inl ⟨_, _, rfl⟩
      · next noLetter =>
        split at read
        · cases read
          exact .inl ⟨_, _, rfl⟩
        · next none =>
          cases read
          refine .inr ⟨rfl, rfl, ?_, Bool.eq_false_iff.mpr noLetter, ?_, punctuator?_eq_none none⟩
          · refine Bool.eq_false_iff.mpr fun digit => noNumber ?_
            rw [digit, Bool.true_or]
          · simpa using noQuote

/-- No token begins with a mark that is in no punctuator. -/
theorem stray_mark {c : Char} (rest : List Char) (mark : c = '#' ∨ c = '\\') : Stray c rest := by
  have solid : ∀ entry ∈ punctuators, entry.1.toList.head?.any (· ∉ ['#', '\\']) = true := by
    decide +kernel
  have noPunctuator : ∀ entry ∈ punctuators, ¬ entry.1.toList <+: c :: rest := by
    rintro entry member ⟨more, whole⟩
    have head := solid entry member
    cases spelled : entry.1.toList with
    | nil => rw [spelled] at head; cases head
    | cons first others =>
      rw [spelled] at whole head
      rw [(List.cons.inj whole).1] at head
      rcases mark with rfl | rfl
      · exact absurd head (Bool.false_ne_true)
      · exact absurd head (Bool.false_ne_true)
  rcases mark with rfl | rfl
  · exact ⟨by decide, by decide, by decide, noPunctuator⟩
  · exact ⟨by decide, by decide, by decide, noPunctuator⟩

theorem formed_token {cxx lineStart closed : Bool} {c : Char} {rest behind : List Char} {kind : Kind}
    {count : Nat} (read : nextPiece cxx lineStart c rest = ⟨.token kind closed, count⟩) :
    Formed (.token kind closed) (c :: rest.take count) behind := by
  cases closed with
  | true =>
    refine .token (noEnd_of_nextPiece read) fun same => ?_
    subst same
    exact greaterGreater_of_nextPiece read
  | false =>
    have literal := unclosed_of_nextPiece read
    refine .token ?_ fun same => ?_
    · rcases literal with rfl | rfl <;> decide
    · rcases literal with rfl | rfl <;> cases same

/-- Every piece that is read has the form of its role. -/
theorem formed_of_nextPiece {cxx lineStart : Bool} {c : Char} {rest : List Char} {role : Role}
    {count : Nat} (read : nextPiece cxx lineStart c rest = ⟨role, count⟩) :
    Formed role (c :: rest.take count) (rest.drop count) := by
  have whole := read
  unfold nextPiece at read
  split at read
  · next newline =>
    cases read
    rw [eq_of_beq newline]
    exact .newline
  · split at read
    · next blank =>
      cases read
      exact .blank blank
    · split at read
      · cases read
        exact formed_lineComment _
      · cases read
        exact formed_blockComment _
      · split at read
        · cases read
          exact formed_directive _
        · cases read
          exact .invalid (stray_mark _ (.inl rfl))
      · split at read
        · next breaks =>
          cases read
          exact .splice (by simpa using breaks)
        · cases read
          exact .invalid (stray_mark _ (.inr rfl))
      · rcases role_of_nextToken read with ⟨kind, closed, rfl⟩ | ⟨rfl, rfl, stray⟩
        · exact formed_token whole
        · exact .invalid stray

end Token
end CppNames
