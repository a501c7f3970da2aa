import CppNames.Proofs.Token.Number

namespace CppNames
namespace Token

/-!
# Pieces that stand apart

What holds of numbers holds of every token: from its own characters, followed by a blank or by
nothing, it is read again.  Quoted literals and words end at a character that decides so by
itself, and among the punctuators the longest that fits is taken, which a blank behind it
leaves the longest.
-/

/-- A token of a kind that is read from a text wherever the text stands apart. -/
def Settled (cxx : Bool) (kind : Kind) (text : List Char) : Prop :=
  ∃ c rest, text = c :: rest ∧ ∀ lineStart behind, Apart behind →
    nextPiece cxx lineStart c (rest ++ behind) = ⟨.token kind true, rest.length⟩

variable {behind : List Char}

/-! ## Quoted literals and words -/

theorem quotedExtent_escape (quote next : Char) (rest : List Char) :
    quotedExtent quote ('\\' :: next :: rest) =
      ((quotedExtent quote rest).1, (quotedExtent quote rest).2 + 2) := by
  conv => lhs; unfold quotedExtent
  rfl

theorem quotedExtent_cons {quote c : Char} (plain : c ≠ '\\') (rest : List Char) :
    quotedExtent quote (c :: rest) =
      if c = quote then (true, 1) else if c = '\n' then (false, 0)
      else ((quotedExtent quote rest).1, (quotedExtent quote rest).2 + 1) := by
  conv => lhs; unfold quotedExtent
  split
  · next same => cases same
  · next same => exact absurd (List.cons.inj same).1 plain
  · next same => exact absurd (List.cons.inj same).1 plain
  · next same => cases same; rfl

/-- A closed literal is read again from its characters, whatever follows. -/
theorem quotedExtent_take {quote : Char} {text : List Char} {count : Nat}
    (closed : quotedExtent quote text = (true, count)) (behind : List Char) :
    count ≤ text.length ∧ quotedExtent quote (text.take count ++ behind) = (true, count) := by
  fun_induction quotedExtent quote text generalizing count with
  | case1 => cases closed
  | case2 => cases closed
  | case3 next rest closedRest countRest found ih =>
    cases closed
    rcases ih found with ⟨inside, again⟩
    refine ⟨by simp only [List.length_cons]; omega, ?_⟩
    rw [List.take_succ_cons, List.take_succ_cons, List.cons_append, List.cons_append,
      quotedExtent_escape, again]
  | case4 rest noEnd noEscape =>
    cases closed
    have plain : quote ≠ '\\' := by
      intro same
      cases rest with
      | nil => exact noEnd same rfl
      | cons head tail => exact noEscape head tail same rfl
    refine ⟨by simp, ?_⟩
    rw [List.take_succ_cons, List.cons_append, quotedExtent_cons plain, if_pos rfl]
  | case5 => cases closed
  | case6 c rest noEnd noEscape noQuote noNewline closedRest countRest found ih =>
    cases closed
    rcases ih found with ⟨inside, again⟩
    have plain : c ≠ '\\' := by
      intro same
      cases rest with
      | nil => exact noEnd same rfl
      | cons head tail => exact noEscape head tail same rfl
    refine ⟨by simp only [List.length_cons]; omega, ?_⟩
    rw [List.take_succ_cons, List.cons_append, quotedExtent_cons plain, if_neg noQuote,
      if_neg noNewline, again]

/-- A word given its letters and the text behind them. -/
def wordBefore (cxx : Bool) (letters remaining : List Char) : Found :=
  let plain : Found := ⟨.token (Kind.ofWord cxx (String.ofList letters)) true, letters.length - 1⟩
  if isLiteralWord (String.ofList letters) then
    match remaining with
    | '"' :: rest => quotedLiteral letters.length '"' rest
    | '\'' :: rest => quotedLiteral letters.length '\'' rest
    | _ => plain
  else plain

theorem word_append (cxx : Bool) {letters remaining : List Char}
    (goOn : ∀ c ∈ letters, isIdentifierContinue c = true)
    (ends : ∀ c more, remaining = c :: more → isIdentifierContinue c = false) :
    word cxx (letters ++ remaining) = wordBefore cxx letters remaining := by
  have taken : (letters ++ remaining).takeWhile isIdentifierContinue = letters := by
    rw [List.takeWhile_append_of_pos goOn]
    cases remaining with
    | nil => exact List.append_nil letters
    | cons c more => rw [List.takeWhile_cons, ends c more rfl]; exact List.append_nil letters
  unfold word
  dsimp only
  rw [taken, List.drop_left]
  rfl

theorem ends_of_apart (apart : Apart behind) :
    ∀ c more, behind = c :: more → isIdentifierContinue c = false := by
  intro c more same
  rcases apart with rfl | ⟨rest, rfl⟩
  · cases same
  · rw [← (List.cons.inj same).1]
    decide

theorem wordBefore_apart (cxx : Bool) (letters : List Char) (apart : Apart behind) :
    wordBefore cxx letters behind =
      ⟨.token (Kind.ofWord cxx (String.ofList letters)) true, letters.length - 1⟩ := by
  unfold wordBefore
  rcases apart with rfl | ⟨more, rfl⟩
  · simp
  · simp

/-- A literal is read again from its characters, whatever follows. -/
theorem quotedLiteral_take {length count : Nat} {quote : Char} {kind : Kind} {rest : List Char}
    (read : quotedLiteral length quote rest = ⟨.token kind true, count⟩) :
    ∃ inside, count = length + inside ∧ inside ≤ rest.length ∧ ∀ behind,
      quotedLiteral length quote (rest.take inside ++ behind) = ⟨.token kind true, count⟩ := by
  unfold quotedLiteral at read
  dsimp only at read
  injection read with role further
  injection role with kindSame closed
  have extent : quotedExtent quote rest = (true, (quotedExtent quote rest).2) := by
    rw [← closed]
  refine ⟨(quotedExtent quote rest).2, further.symm, (quotedExtent_take extent []).1, ?_⟩
  intro behind
  unfold quotedLiteral
  rw [(quotedExtent_take extent behind).2, ← kindSame, ← further]

theorem plainWord_take (cxx : Bool) {letters : List Char} (remaining : List Char)
    (nonempty : letters ≠ []) (goOn : ∀ c ∈ letters, isIdentifierContinue c = true) :
    letters.length - 1 < (letters ++ remaining).length ∧ ∀ behind, Apart behind →
      word cxx ((letters ++ remaining).take (letters.length - 1 + 1) ++ behind) =
        ⟨.token (Kind.ofWord cxx (String.ofList letters)) true, letters.length - 1⟩ := by
  have positive : 0 < letters.length := List.length_pos_iff.mpr nonempty
  refine ⟨by rw [List.length_append]; omega, fun behind apart => ?_⟩
  rw [Nat.sub_add_cancel positive, List.take_left' rfl, word_append cxx goOn (ends_of_apart apart),
    wordBefore_apart cxx letters apart]

theorem literal_take {cxx : Bool} {letters rest : List Char} {quote : Char} {kind : Kind}
    {count : Nat} (goOn : ∀ c ∈ letters, isIdentifierContinue c = true)
    (isQuote : isIdentifierContinue quote = false)
    (opens : ∀ more, wordBefore cxx letters (quote :: more) = quotedLiteral letters.length quote more)
    (read : quotedLiteral letters.length quote rest = ⟨.token kind true, count⟩) :
    count < (letters ++ quote :: rest).length ∧ ∀ behind, Apart behind →
      word cxx ((letters ++ quote :: rest).take (count + 1) ++ behind) = ⟨.token kind true, count⟩ := by
  rcases quotedLiteral_take read with ⟨inside, rfl, within, again⟩
  refine ⟨by simp only [List.length_append, List.length_cons]; omega, fun behind apart => ?_⟩
  have taken : (letters ++ quote :: rest).take (letters.length + inside + 1) =
      letters ++ quote :: rest.take inside := by
    rw [Nat.add_assoc, List.take_length_add_append, List.take_succ_cons]
  rw [taken, List.append_assoc, List.cons_append, word_append cxx goOn, opens, again]
  intro c more same
  rw [← (List.cons.inj same).1]
  exact isQuote

/-- A word, or the literal that it opens, is read again from its characters, standing
apart. -/
theorem word_take {cxx : Bool} {text : List Char} {kind : Kind} {count : Nat}
    (starts : text.takeWhile isIdentifierContinue ≠ [])
    (read : word cxx text = ⟨.token kind true, count⟩) :
    count < text.length ∧ ∀ behind, Apart behind →
      word cxx (text.take (count + 1) ++ behind) = ⟨.token kind true, count⟩ := by
  have goOn : ∀ c ∈ text.takeWhile isIdentifierContinue, isIdentifierContinue c = true :=
    fun c member => List.mem_takeWhile_imp member
  have ends : ∀ c more, text.dropWhile isIdentifierContinue = c :: more →
      isIdentifierContinue c = false := by
    intro c more same
    have there : text.dropWhile isIdentifierContinue ≠ [] := by rw [same]; exact List.cons_ne_nil _ _
    have head := List.head_dropWhile_not isIdentifierContinue there
    simpa only [same, List.head_cons] using head
  have parts : text.takeWhile isIdentifierContinue ++ text.dropWhile isIdentifierContinue = text :=
    List.takeWhile_append_dropWhile
  generalize text.takeWhile isIdentifierContinue = letters at starts goOn parts
  generalize text.dropWhile isIdentifierContinue = remaining at ends parts
  subst parts
  rw [word_append cxx goOn ends] at read
  have plain := plainWord_take cxx remaining starts goOn
  by_cases isLiteral : isLiteralWord (String.ofList letters) = true
  · have opens : ∀ more, wordBefore cxx letters ('"' :: more) =
        quotedLiteral letters.length '"' more := fun more => if_pos isLiteral
    have opensCharacter : ∀ more, wordBefore cxx letters ('\'' :: more) =
        quotedLiteral letters.length '\'' more := fun more => if_pos isLiteral
    unfold wordBefore at read
    dsimp only at read
    rw [if_pos isLiteral] at read
    split at read
    · exact literal_take goOn (by decide) opens read
    · exact literal_take goOn (by decide) opensCharacter read
    · cases read
      exact plain
  · unfold wordBefore at read
    dsimp only at read
    rw [if_neg isLiteral] at read
    cases read
    exact plain

/-! ## Punctuators -/

theorem isPrefixOf_apart (apart : Apart behind) {spelled : List Char} (solid : ' ' ∉ spelled)
    (text : List Char) : spelled.isPrefixOf (text ++ behind) = spelled.isPrefixOf text := by
  induction spelled generalizing text with
  | nil => simp
  | cons c rest ih =>
    have solidRest : ' ' ∉ rest := fun member => solid (List.mem_cons_of_mem _ member)
    cases text with
    | cons first text => simp only [List.cons_append, List.isPrefixOf_cons_cons, ih solidRest]
    | nil =>
      rcases apart with rfl | ⟨more, rfl⟩
      · rfl
      · have other : (c == ' ') = false := by
          apply beq_eq_false_iff_ne.mpr
          intro same
          exact solid (same ▸ List.mem_cons_self ..)
        simp [List.isPrefixOf, other]

theorem punctuator?_apart (apart : Apart behind) (text : List Char) :
    punctuator? (text ++ behind) = punctuator? text := by
  have solid : ∀ entry ∈ punctuators, ' ' ∉ entry.1.toList := by decide +kernel
  have same : punctuators.filter (fun entry => entry.1.toList.isPrefixOf (text ++ behind)) =
      punctuators.filter fun entry => entry.1.toList.isPrefixOf text :=
    List.filter_congr fun entry member => isPrefixOf_apart apart (solid entry member) text
  unfold punctuator?
  rw [same]

/-- Every punctuator is read from its own text. -/
theorem punctuator?_self {entry : String × Kind} (member : entry ∈ punctuators) :
    punctuator? entry.1.toList = some entry := by
  have all : ∀ entry ∈ punctuators, punctuator? entry.1.toList = some entry := by decide +kernel
  exact all entry member

theorem longer_eq_or (left right : String × Kind) :
    longer left right = left ∨ longer left right = right := by
  unfold longer
  split
  · exact .inr rfl
  · exact .inl rfl

theorem length_le_longer (left right : String × Kind) :
    left.1.length ≤ (longer left right).1.length ∧
      right.1.length ≤ (longer left right).1.length := by
  unfold longer
  split <;> omega

/-- The longest entry of a list is an entry, and none is longer. -/
theorem foldl_longer {entries : List (String × Kind)} {start : Option (String × Kind)}
    {best : String × Kind}
    (found : entries.foldl (fun best entry => some (best.elim entry (longer · entry))) start =
      some best) :
    best ∈ start.toList ++ entries ∧
      ∀ other ∈ start.toList ++ entries, other.1.length ≤ best.1.length := by
  induction entries generalizing start with
  | nil =>
    cases found
    simp
  | cons entry rest ih =>
    rw [List.foldl_cons] at found
    cases start with
    | none => exact ih found
    | some first =>
      rcases ih found with ⟨origin, longest⟩
      have upper := longest (longer first entry) (List.mem_cons_self ..)
      rcases length_le_longer first entry with ⟨front, behind⟩
      refine ⟨?_, ?_⟩
      · rcases List.mem_cons.mp origin with rfl | member
        · rcases longer_eq_or first entry with kept | changed
          · simp [kept]
          · simp [changed]
        · exact List.mem_cons_of_mem _ (List.mem_cons_of_mem _ member)
      · intro other member
        rcases List.mem_cons.mp member with rfl | member
        · exact front.trans upper
        rcases List.mem_cons.mp member with rfl | member
        · exact behind.trans upper
        · exact longest other (List.mem_cons_of_mem _ member)

/-- What is read as a punctuator stands in the table and at the front of the text, and no
longer one does. -/
theorem punctuator?_spec {text : List Char} {entry : String × Kind}
    (found : punctuator? text = some entry) :
    entry ∈ punctuators ∧ entry.1.toList <+: text ∧
      ∀ other ∈ punctuators, other.1.toList <+: text → other.1.length ≤ entry.1.length := by
  rcases foldl_longer found with ⟨member, longest⟩
  rcases List.mem_filter.mp member with ⟨listed, front⟩
  refine ⟨listed, List.isPrefixOf_iff_prefix.mp front, fun other inTable isFront => ?_⟩
  exact longest other (List.mem_filter.mpr ⟨inTable, List.isPrefixOf_iff_prefix.mpr isFront⟩)

/-! ## Tokens -/

theorem head_of_take (apart : Apart behind) {rest : List Char} {test : Char → Bool} {count : Nat}
    (hidden : test ' ' = false) (shown : (rest.take count ++ behind).head?.any test = true) :
    rest.head?.any test = true := by
  cases front : rest.take count ++ behind with
  | nil => rw [front] at shown; cases shown
  | cons first more =>
    rw [front] at shown
    have passes : test first = true := shown
    have visible : first ≠ ' ' := by
      intro same
      rw [same, hidden] at passes
      cases passes
    rcases front_of_take apart visible front with ⟨remaining, fewer, rfl, _, _⟩
    exact passes

theorem nextToken_number {cxx : Bool} {c : Char} {rest : List Char}
    (starts : (c.isDigit || (c == '.' && rest.head?.any Char.isDigit)) = true) :
    nextToken cxx c rest = number (c :: rest) :=
  if_pos starts

theorem number_settled (cxx : Bool) {c : Char} {rest : List Char}
    (starts : (c.isDigit || (c == '.' && rest.head?.any Char.isDigit)) = true) :
    (number (c :: rest)).further ≤ rest.length ∧ ∀ behind, Apart behind →
      nextToken cxx c (rest.take (number (c :: rest)).further ++ behind) = number (c :: rest) := by
  have whole := numberLength_le (c :: rest)
  have further : (number (c :: rest)).further = numberLength (c :: rest) - 1 := rfl
  have positive : 0 < numberLength (c :: rest) ∧ (c.isDigit = false → 1 < numberLength (c :: rest)) := by
    rcases Bool.or_eq_true_iff.mp starts with digit | point
    · exact ⟨numberLength_digit digit rest, fun other => by rw [digit] at other; cases other⟩
    · rcases Bool.and_eq_true_iff.mp point with ⟨isPoint, follows⟩
      have same : c = '.' := eq_of_beq isPoint
      subst same
      cases rest with
      | nil => cases follows
      | cons digit rest =>
        have long := numberLength_point follows rest
        exact ⟨by omega, fun _ => long⟩
  refine ⟨by rw [further]; simp only [List.length_cons] at whole; omega, fun behind apart => ?_⟩
  have taken : c :: (rest.take (number (c :: rest)).further ++ behind) =
      (c :: rest).take (numberLength (c :: rest)) ++ behind := by
    rw [further]
    conv => rhs; rw [← Nat.sub_add_cancel positive.1]
    rfl
  have again : (c.isDigit ||
      (c == '.' && (rest.take (number (c :: rest)).further ++ behind).head?.any Char.isDigit)) = true := by
    cases digit : c.isDigit with
    | true => rfl
    | false =>
      rw [digit] at starts
      rcases Bool.and_eq_true_iff.mp starts with ⟨isPoint, follows⟩
      cases rest with
      | nil => cases follows
      | cons first more =>
        have long := positive.2 digit
        rw [further, isPoint]
        rcases Nat.exists_eq_add_of_le' (by omega : 1 ≤ numberLength (c :: first :: more) - 1) with
          ⟨fewer, same⟩
        rw [same]
        exact follows
  rw [nextToken_number again, taken, number_take apart]

theorem punctuators_nonempty : ∀ entry ∈ punctuators, 0 < entry.1.toList.length := by
  decide +kernel

theorem punctuator_settled {cxx : Bool} {c : Char} {rest : List Char} {entry : String × Kind}
    (noNumber : (c.isDigit || (c == '.' && rest.head?.any Char.isDigit)) = false)
    (noQuote : (c == '"' || c == '\'') = false) (noWord : isIdentifierStart c = false)
    (found : punctuator? (c :: rest) = some entry) :
    entry.1.length - 1 ≤ rest.length ∧ ∀ behind, Apart behind →
      nextToken cxx c (rest.take (entry.1.length - 1) ++ behind) =
        ⟨.token entry.2 true, entry.1.length - 1⟩ := by
  rcases punctuator?_spec found with ⟨member, front, _⟩
  have positive := punctuators_nonempty entry member
  have whole := front.length_le
  have spelled : entry.1.toList = (c :: rest).take entry.1.toList.length :=
    List.prefix_iff_eq_take.mp front
  rw [String.length_toList] at positive whole spelled
  refine ⟨by simp only [List.length_cons] at whole; omega, fun behind apart => ?_⟩
  have taken : c :: (rest.take (entry.1.length - 1) ++ behind) = entry.1.toList ++ behind := by
    conv => rhs; rw [spelled, ← Nat.sub_add_cancel positive]
    rfl
  have stillNoNumber : (c.isDigit ||
      (c == '.' && (rest.take (entry.1.length - 1) ++ behind).head?.any Char.isDigit)) = false := by
    rcases Bool.or_eq_false_iff.mp noNumber with ⟨noDigit, noPoint⟩
    rw [noDigit, Bool.false_or]
    cases shown : (rest.take (entry.1.length - 1) ++ behind).head?.any Char.isDigit with
    | false => exact Bool.and_false _
    | true =>
      rw [head_of_take apart (by decide) shown] at noPoint
      exact noPoint
  unfold nextToken
  rw [stillNoNumber, noQuote, noWord, if_neg (by decide), if_neg (by decide), if_neg (by decide),
    taken, punctuator?_apart apart, punctuator?_self member]

/-- A token is read again from its characters, standing apart. -/
theorem nextToken_settled {cxx : Bool} {c : Char} {rest : List Char} {kind : Kind} {count : Nat}
    (read : nextToken cxx c rest = ⟨.token kind true, count⟩) :
    count ≤ rest.length ∧ ∀ behind, Apart behind →
      nextToken cxx c (rest.take count ++ behind) = ⟨.token kind true, count⟩ := by
  cases starts : (c.isDigit || (c == '.' && rest.head?.any Char.isDigit)) with
  | true =>
    have settled := number_settled cxx starts
    rw [nextToken_number starts] at read
    rw [read] at settled
    exact settled
  | false =>
    have noDigit : c.isDigit = false := (Bool.or_eq_false_iff.mp starts).1
    unfold nextToken at read
    rw [starts, if_neg (by decide)] at read
    by_cases opens : (c == '"' || c == '\'') = true
    · rw [if_pos opens] at read
      rcases quotedLiteral_take read with ⟨inside, same, within, again⟩
      rw [Nat.zero_add] at same
      subst same
      refine ⟨within, fun behind _ => ?_⟩
      have quoted : ∀ more, nextToken cxx c more = quotedLiteral 0 c more := by
        rcases Bool.or_eq_true_iff.mp opens with isQuote | isQuote
        · rw [eq_of_beq isQuote]
          exact fun more => rfl
        · rw [eq_of_beq isQuote]
          exact fun more => rfl
      rw [quoted, again]
    · rw [if_neg opens] at read
      by_cases letter : isIdentifierStart c = true
      · rw [if_pos letter] at read
        have goesOn := isIdentifierContinue_of_start letter
        have nonempty : (c :: rest).takeWhile isIdentifierContinue ≠ [] := by
          rw [List.takeWhile_cons_of_pos goesOn]
          exact List.cons_ne_nil _ _
        rcases word_take nonempty read with ⟨within, again⟩
        refine ⟨Nat.le_of_lt_succ within, fun behind apart => ?_⟩
        have noPoint : (c == '.') = false := by
          apply beq_eq_false_iff_ne.mpr
          intro same
          rw [same] at letter
          exact absurd letter (by decide)
        unfold nextToken
        rw [noDigit, noPoint, Bool.false_and, Bool.false_or, if_neg (by decide), if_neg opens,
          if_pos letter]
        exact again behind apart
      · rw [if_neg letter] at read
        cases found : punctuator? (c :: rest) with
        | none => rw [found] at read; cases read
        | some entry =>
          rw [found] at read
          cases read
          exact punctuator_settled starts (Bool.eq_false_iff.mpr opens)
            (Bool.eq_false_iff.mpr letter) found

/-! ## Pieces -/

/-- A text at whose front neither a blank piece nor a comment nor a directive stands. -/
structure Solid (c : Char) (rest : List Char) : Prop where
  noNewline : c ≠ '\n'
  noBlank : isBlank c = false
  noDirective : c ≠ '#'
  noSplice : c ≠ '\\'
  noComment : c = '/' → rest.head?.any (fun next => next == '/' || next == '*') = false

theorem nextPiece_solid (cxx lineStart : Bool) {c : Char} {rest : List Char} (solid : Solid c rest) :
    nextPiece cxx lineStart c rest = nextToken cxx c rest := by
  unfold nextPiece
  rw [if_neg (by simpa using solid.noNewline), if_neg (by rw [solid.noBlank]; decide)]
  split
  · exact absurd (solid.noComment rfl) (by simp)
  · exact absurd (solid.noComment rfl) (by simp)
  · exact absurd rfl solid.noDirective
  · exact absurd rfl solid.noSplice
  · rfl

theorem solid_of_nextPiece {cxx lineStart closed : Bool} {c : Char} {rest : List Char} {kind : Kind}
    {count : Nat} (read : nextPiece cxx lineStart c rest = ⟨.token kind closed, count⟩) :
    Solid c rest := by
  unfold nextPiece at read
  by_cases newline : (c == '\n') = true
  · rw [if_pos newline] at read
    cases read
  · rw [if_neg newline] at read
    by_cases blank : isBlank c = true
    · rw [if_pos blank] at read
      cases read
    · rw [if_neg blank] at read
      split at read
      · cases read
      · cases read
      · split at read
        · cases read
        · cases read
      · split at read
        · cases read
        · cases read
      · next noDirective noLine noBlock noSplice =>
        refine ⟨by simpa using newline, Bool.eq_false_iff.mpr blank, noDirective, ?_, ?_⟩
        · intro same
          subst same
          cases rest with
          | cons next more => exact noSplice next more rfl rfl
          | nil =>
            have invalid : nextToken cxx '\\' [] = ⟨.invalid, 0⟩ := rfl
            rw [invalid] at read
            cases read
        · intro same
          cases rest with
          | nil => rfl
          | cons next more =>
            have line : next ≠ '/' := fun isSlash => noLine more same (by rw [isSlash])
            have block : next ≠ '*' := fun isStar => noBlock more same (by rw [isStar])
            simp [line, block]

/-- Every token that is read without trouble is settled. -/
theorem settled_of_nextPiece {cxx lineStart : Bool} {c : Char} {rest : List Char} {kind : Kind}
    {count : Nat} (read : nextPiece cxx lineStart c rest = ⟨.token kind true, count⟩) :
    Settled cxx kind (c :: rest.take count) := by
  have solid := solid_of_nextPiece read
  rw [nextPiece_solid cxx lineStart solid] at read
  rcases nextToken_settled read with ⟨within, again⟩
  refine ⟨c, rest.take count, rfl, fun lineStart behind apart => ?_⟩
  have stillSolid : Solid c (rest.take count ++ behind) := by
    refine ⟨solid.noNewline, solid.noBlank, solid.noDirective, solid.noSplice, fun same => ?_⟩
    cases shown : (rest.take count ++ behind).head?.any fun next => next == '/' || next == '*' with
    | false => rfl
    | true =>
      have inFront := head_of_take apart (by decide) shown
      rw [solid.noComment same] at inFront
      cases inFront
  rw [nextPiece_solid cxx lineStart stillSolid, again behind apart, List.length_take,
    Nat.min_eq_left within]

/-! ## Closing angle brackets -/

/-- A literal is no punctuation. -/
theorem isPunctuation_of_isLiteral {kind : Kind} (literal : kind.isLiteral = true) :
    kind.isPunctuation = false := by
  cases kind <;> first | decide +kernel | cases literal

theorem isLiteral_number {text : List Char} {kind : Kind} {count : Nat}
    (read : number text = ⟨.token kind true, count⟩) : kind.isLiteral = true := by
  unfold number at read
  generalize digitsExtent text = digits at read
  injection read with role _
  injection role with same _
  rw [← same]
  cases digits.1 with
  | true => rfl
  | false => rfl

theorem isLiteral_quotedLiteral {length count : Nat} {quote : Char} {rest : List Char} {kind : Kind}
    (read : quotedLiteral length quote rest = ⟨.token kind true, count⟩) : kind.isLiteral = true := by
  injection read with role _
  injection role with same _
  rw [← same]
  unfold literalKind
  split
  · rfl
  · rfl

/-- A word is an identifier, or it is listed among the keywords. -/
theorem ofWord_eq (cxx : Bool) (text : String) :
    Kind.ofWord cxx text = .identifier ∨ ∃ entry ∈ keywords, Kind.ofWord cxx text = entry.2 := by
  unfold Kind.ofWord
  split
  · next kind found =>
    split
    · unfold Kind.ofKeyword? at found
      rcases Option.map_eq_some_iff.mp found with ⟨entry, first, rfl⟩
      exact .inr ⟨entry, List.mem_of_find?_eq_some first, rfl⟩
    · exact .inl rfl
  · exact .inl rfl

theorem isPunctuation_ofWord (cxx : Bool) (text : String) :
    (Kind.ofWord cxx text).isPunctuation = false := by
  have keyword : ∀ entry ∈ keywords, entry.2.isPunctuation = false := by decide +kernel
  rcases ofWord_eq cxx text with same | ⟨entry, member, same⟩
  · rw [same]
    decide +kernel
  · rw [same]
    exact keyword entry member

theorem unclosed_quotedLiteral {length count : Nat} {quote : Char} {rest : List Char} {kind : Kind}
    (read : quotedLiteral length quote rest = ⟨.token kind false, count⟩) :
    kind = .stringLiteral ∨ kind = .charLiteral := by
  injection read with role _
  injection role with same _
  rw [← same]
  unfold literalKind
  split
  · exact .inl rfl
  · exact .inr rfl

/-- Only a quoted literal can lack its closing mark. -/
theorem unclosed_of_nextPiece {cxx lineStart : Bool} {c : Char} {rest : List Char} {kind : Kind}
    {count : Nat} (read : nextPiece cxx lineStart c rest = ⟨.token kind false, count⟩) :
    kind = .stringLiteral ∨ kind = .charLiteral := by
  rw [nextPiece_solid cxx lineStart (solid_of_nextPiece read)] at read
  unfold nextToken at read
  split at read
  · cases read
  · split at read
    · exact unclosed_quotedLiteral read
    · split at read
      · unfold word at read
        dsimp only at read
        split at read
        · split at read
          · exact unclosed_quotedLiteral read
          · exact unclosed_quotedLiteral read
          · cases read
        · cases read
      · split at read
        · cases read
        · cases read

/-- Where the kind of a token comes from: it is that of a literal or a word, or it stands in
the table of punctuators. -/
theorem kind_of_nextPiece {cxx lineStart : Bool} {c : Char} {rest : List Char} {kind : Kind}
    {count : Nat} (read : nextPiece cxx lineStart c rest = ⟨.token kind true, count⟩) :
    kind.isLiteral = true ∨ (∃ text, kind = Kind.ofWord cxx text) ∨
      ∃ spelled, punctuator? (c :: rest) = some (spelled, kind) ∧ count = spelled.length - 1 := by
  rw [nextPiece_solid cxx lineStart (solid_of_nextPiece read)] at read
  unfold nextToken at read
  split at read
  · exact .inl (isLiteral_number read)
  · split at read
    · exact .inl (isLiteral_quotedLiteral read)
    · split at read
      · unfold word at read
        dsimp only at read
        split at read
        · split at read
          · exact .inl (isLiteral_quotedLiteral read)
          · exact .inl (isLiteral_quotedLiteral read)
          · cases read
            exact .inr (.inl ⟨_, rfl⟩)
        · cases read
          exact .inr (.inl ⟨_, rfl⟩)
      · split at read
        · next spelled other found =>
          cases read
          exact .inr (.inr ⟨spelled, found, rfl⟩)
        · cases read

/-- Punctuation is read from the table. -/
theorem punctuator_of_nextPiece {cxx lineStart : Bool} {c : Char} {rest : List Char} {kind : Kind}
    {count : Nat} (read : nextPiece cxx lineStart c rest = ⟨.token kind true, count⟩)
    (punctuation : kind.isPunctuation = true) :
    ∃ spelled, punctuator? (c :: rest) = some (spelled, kind) ∧ count = spelled.length - 1 := by
  rcases kind_of_nextPiece read with literal | ⟨text, rfl⟩ | listed
  · rw [isPunctuation_of_isLiteral literal] at punctuation
    cases punctuation
  · rw [isPunctuation_ofWord] at punctuation
    cases punctuation
  · exact listed

/-- No piece of a text is its end. -/
theorem noEnd_of_nextPiece {cxx lineStart : Bool} {c : Char} {rest : List Char} {kind : Kind}
    {count : Nat} (read : nextPiece cxx lineStart c rest = ⟨.token kind true, count⟩) :
    kind ≠ .endOfFile := by
  have word : ∀ text, Kind.ofWord cxx text ≠ .endOfFile := by
    intro text
    have keyword : ∀ entry ∈ keywords, entry.2 ≠ .endOfFile := by decide
    rcases ofWord_eq cxx text with same | ⟨entry, member, same⟩
    · rw [same]
      decide
    · exact same ▸ keyword entry member
  have listed : ∀ entry ∈ punctuators, entry.2 ≠ .endOfFile := by decide
  rcases kind_of_nextPiece read with literal | ⟨text, rfl⟩ | ⟨spelled, found, _⟩
  · intro same
    rw [same] at literal
    cases literal
  · exact word text
  · exact listed _ (punctuator?_spec found).1

/-- A `>` is read only where no other one follows directly. -/
theorem greater_of_nextPiece {cxx lineStart : Bool} {c : Char} {rest : List Char} {count : Nat}
    (read : nextPiece cxx lineStart c rest = ⟨.token .greater true, count⟩) :
    c = '>' ∧ count = 0 ∧ rest.head? ≠ some '>' := by
  rcases punctuator_of_nextPiece read (by decide +kernel) with ⟨spelled, found, rfl⟩
  rcases punctuator?_spec found with ⟨member, front, longest⟩
  have only : ∀ entry ∈ punctuators, entry.2 = .greater → entry.1 = ">" := by decide
  have same : spelled = ">" := only _ member rfl
  subst same
  have starts : c = '>' := by
    rcases front with ⟨more, whole⟩
    exact (List.cons.inj whole).1.symm
  refine ⟨starts, rfl, fun follows => ?_⟩
  rcases List.head?_eq_some_iff.mp follows with ⟨more, rfl⟩
  have long := longest (">>", .greaterGreater) (by decide) ⟨more, by rw [starts]; rfl⟩
  exact absurd long (by decide)

/-- A token `>>` has the text that its kind tells. -/
theorem greaterGreater_of_nextPiece {cxx lineStart : Bool} {c : Char} {rest : List Char}
    {count : Nat} (read : nextPiece cxx lineStart c rest = ⟨.token .greaterGreater true, count⟩) :
    c :: rest.take count = ['>', '>'] := by
  rcases punctuator_of_nextPiece read (by decide +kernel) with ⟨spelled, found, rfl⟩
  rcases punctuator?_spec found with ⟨member, front, longest⟩
  have only : ∀ entry ∈ punctuators, entry.2 = .greaterGreater → entry.1 = ">>" := by decide
  have same : spelled = ">>" := only _ member rfl
  subst same
  rcases front with ⟨more, whole⟩
  have parts := List.cons.inj whole
  rw [← parts.1, ← parts.2]
  rfl

/-- Two `>` are read as one token unless a `=` follows. -/
theorem nextPiece_greaterGreater (cxx lineStart : Bool) {rest : List Char}
    (closes : rest = [] ∨ ∃ first more, rest = first :: more ∧ (first = ' ' ∨ first = '>')) :
    nextPiece cxx lineStart '>' ('>' :: rest) = ⟨.token .greaterGreater true, 1⟩ := by
  rcases closes with rfl | ⟨first, more, rfl, rfl | rfl⟩
  · rfl
  · rfl
  · rfl

end Token
end CppNames
