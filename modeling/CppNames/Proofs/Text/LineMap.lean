import CppNames.Text.LineMap
import CppNames.Text.Utf8

namespace CppNames

/-!
# Lines of a text, byte by byte

A line map is made from characters and asked about bytes.  It remembers where lines start, and
the starts ascend, so they can be searched by halving.  Such a search has two outcomes: it hits
the start of a line, or it tells in front of which start the position would have to be put, and
then the position lies in the line before that one.  The first start is position zero, so there
is always a line before.

`Sought` is what may be asked of a search of ascending numbers, and no more.  Whatever such a
search answers, it tells the same line, namely the number of starts behind newlines that are not
behind the position.  What this number is in terms of the text is said without the starts: the
number of newlines among the bytes in front of the position.
-/

/-! ## Ascending numbers -/

/-- In ascending numbers, those that do not exceed a limit are those in front. -/
theorem le_iff_lt_countP {values : List Nat} (ascending : values.Pairwise (· < ·))
    {index value : Nat} (there : values[index]? = some value) (limit : Nat) :
    value ≤ limit ↔ index < values.countP (· ≤ limit) := by
  induction ascending generalizing index with
  | nil => cases there
  | @cons first rest above _ ih =>
    cases index with
    | zero =>
      have same : first = value := Option.some.inj there
      subst same
      by_cases within : first ≤ limit
      · simp [within]
      · have none : rest.countP (· ≤ limit) = 0 :=
          List.countP_eq_zero.mpr fun other member small =>
            within (Nat.le_trans (Nat.le_of_lt (above other member)) (of_decide_eq_true small))
        simp [within, none]
    | succ index =>
      have inside : rest[index]? = some value := there
      have larger := above value (List.mem_of_getElem? inside)
      rw [ih inside, List.countP_cons]
      by_cases within : first ≤ limit
      · simp [within]
      · have beyond : ¬ value ≤ limit := by omega
        rw [ih inside] at beyond
        simp only [within, decide_false, Bool.false_eq_true, if_false]
        omega

theorem countP_of_parts {front back : List Nat} {limit : Nat}
    (within : ∀ value ∈ front, value ≤ limit) (beyond : ∀ value ∈ back, limit < value) :
    (front ++ back).countP (· ≤ limit) = front.length := by
  have all : front.countP (· ≤ limit) = front.length :=
    List.countP_eq_length.mpr fun value member => decide_eq_true (within value member)
  have none : back.countP (· ≤ limit) = 0 :=
    List.countP_eq_zero.mpr fun value member small =>
      absurd (of_decide_eq_true small) (Nat.not_le_of_lt (beyond value member))
  rw [List.countP_append, all, none, Nat.add_zero]

/-- What a search of ascending numbers may answer: where the number stands, or where it would
have to be put. -/
inductive Sought (values : List Nat) (wanted : Nat) : Except Nat Nat → Prop where
  | hit {front back : List Nat} (parts : values = front ++ wanted :: back) :
    Sought values wanted (.ok front.length)
  | miss {front back : List Nat} (parts : values = front ++ back)
      (below : ∀ value ∈ front, value < wanted) (above : ∀ value ∈ back, wanted < value) :
    Sought values wanted (.error front.length)

/-- A search of ascending numbers always has an answer. -/
theorem exists_sought {values : List Nat} (ascending : values.Pairwise (· < ·)) (wanted : Nat) :
    ∃ answer, Sought values wanted answer := by
  induction ascending with
  | nil => exact ⟨_, .miss (List.append_nil []).symm (by simp) (by simp)⟩
  | @cons first rest above _ ih =>
    rcases Nat.lt_trichotomy wanted first with less | rfl | greater
    · refine ⟨_, .miss (List.nil_append (first :: rest)).symm (by simp) fun value member => ?_⟩
      rcases List.mem_cons.mp member with rfl | later
      · exact less
      · exact Nat.lt_trans less (above value later)
    · exact ⟨_, .hit (List.nil_append (wanted :: rest)).symm⟩
    · rcases ih with ⟨_, sought⟩
      cases sought with
      | @hit front back parts => exact ⟨_, .hit (parts ▸ (List.cons_append).symm)⟩
      | @miss front back parts below behind =>
        refine ⟨_, .miss (parts ▸ (List.cons_append).symm) (fun value member => ?_) behind⟩
        rcases List.mem_cons.mp member with rfl | later
        · exact greater
        · exact below value later

/-- The line that a search of the starts tells: the one that starts there, or the one in front.
In front of the first line there is none. -/
def lineTold? : Except Nat Nat → Option Nat
  | .ok line => some line
  | .error 0 => none
  | .error (line + 1) => some line

/-! ## Newlines among bytes -/

/-- The byte of a newline. -/
def newline : UInt8 := 0x0A

/-- The positions behind the newlines among some bytes, the first of which is at `position`. -/
def behindNewlines (position : Nat) : List UInt8 → List Nat
  | [] => []
  | byte :: rest =>
    if byte = newline then (position + 1) :: behindNewlines (position + 1) rest
    else behindNewlines (position + 1) rest

theorem behindNewlines_append (position : Nat) (front back : List UInt8) :
    behindNewlines position (front ++ back) =
      behindNewlines position front ++ behindNewlines (position + front.length) back := by
  induction front generalizing position with
  | nil => rfl
  | cons byte rest ih =>
    have further : position + 1 + rest.length = position + (byte :: rest).length := by
      rw [List.length_cons]
      omega
    simp only [List.cons_append, behindNewlines, ih, further]
    split
    · rfl
    · rfl

theorem mem_behindNewlines {position start : Nat} {bytes : List UInt8} :
    start ∈ behindNewlines position bytes ↔
      ∃ index, bytes[index]? = some newline ∧ start = position + index + 1 := by
  induction bytes generalizing position with
  | nil => simp [behindNewlines]
  | cons byte rest ih =>
    have later : (∃ index, (byte :: rest)[index]? = some newline ∧ start = position + index + 1) ↔
        (byte = newline ∧ start = position + 1) ∨
          ∃ index, rest[index]? = some newline ∧ start = position + 1 + index + 1 := by
      constructor
      · rintro ⟨index, there, same⟩
        cases index with
        | zero => exact .inl ⟨Option.some.inj there, same⟩
        | succ index => exact .inr ⟨index, there, by omega⟩
      · rintro (⟨here, same⟩ | ⟨index, there, same⟩)
        · exact ⟨0, congrArg some here, same⟩
        · exact ⟨index + 1, there, by omega⟩
    rw [later, ← ih, behindNewlines]
    split
    · next here => simp [here]
    · next other => simp [other]

theorem ascending_behindNewlines (position : Nat) (bytes : List UInt8) :
    (behindNewlines position bytes).Pairwise (· < ·) := by
  induction bytes generalizing position with
  | nil => exact .nil
  | cons byte rest ih =>
    unfold behindNewlines
    split
    · refine .cons (fun start member => ?_) (ih _)
      rcases mem_behindNewlines.mp member with ⟨index, -, same⟩
      omega
    · exact ih _

/-- As many lines start at or in front of a position as there are newlines in front of it. -/
theorem countP_behindNewlines (position limit : Nat) (bytes : List UInt8) :
    (behindNewlines position bytes).countP (· ≤ limit) =
      (bytes.take (limit - position)).count newline := by
  induction bytes generalizing position with
  | nil => simp [behindNewlines]
  | cons byte rest ih =>
    unfold behindNewlines
    by_cases within : position + 1 ≤ limit
    · have more : limit - position = (limit - (position + 1)) + 1 := by omega
      rw [more, List.take_succ_cons, List.count_cons, ← ih]
      split
      · next here => simp [here, within]
      · next other => simp [other]
    · have none : limit - position = 0 := by omega
      have behind := ih (position + 1)
      rw [show limit - (position + 1) = 0 by omega] at behind
      rw [none]
      split
      · simpa [within] using behind
      · exact behind

theorem length_behindNewlines (position : Nat) (bytes : List UInt8) :
    (behindNewlines position bytes).length = bytes.count newline := by
  induction bytes generalizing position with
  | nil => rfl
  | cons byte rest ih =>
    unfold behindNewlines
    rw [List.count_cons]
    split
    · next here => simp [here, ih]
    · next other => simp [other, ih]

/-! ## Newlines among characters -/

/-- The bytes of any other character are no newlines. -/
theorem newline_not_mem_utf8EncodeChar {c : Char} (other : c ≠ '\n') :
    newline ∉ String.utf8EncodeChar c := by
  have different : c.val.toNat ≠ 10 := fun same => other (Char.ext (UInt32.toNat_inj.mp same))
  have byte : ∀ {value : Nat}, newline = UInt8.ofNat value → value % 256 = 10 := by
    intro value same
    exact (UInt8.toNat_ofNat' ▸ congrArg UInt8.toNat same).symm
  unfold String.utf8EncodeChar
  dsimp only
  intro member
  split at member
  · have same := byte (List.mem_singleton.mp member)
    omega
  · split at member
    · simp only [List.mem_cons, List.not_mem_nil, or_false] at member
      rcases member with same | same <;> have same := byte same <;> omega
    · split at member
      · simp only [List.mem_cons, List.not_mem_nil, or_false] at member
        rcases member with same | same | same <;> have same := byte same <;> omega
      · simp only [List.mem_cons, List.not_mem_nil, or_false] at member
        rcases member with same | same | same | same <;> have same := byte same <;> omega

theorem behindNewlines_eq_nil {bytes : List UInt8} (none : newline ∉ bytes) (position : Nat) :
    behindNewlines position bytes = [] := by
  rw [← List.length_eq_zero_iff, length_behindNewlines]
  exact List.count_eq_zero.mpr none

/-- The starts that are found among characters are those behind the newlines among bytes. -/
theorem startsBehindNewlines_eq (position : Nat) (characters : List Char) :
    startsBehindNewlines position characters =
      behindNewlines position (characters.flatMap String.utf8EncodeChar) := by
  induction characters generalizing position with
  | nil => rfl
  | cons c rest ih =>
    rw [List.flatMap_cons, behindNewlines_append, String.length_utf8EncodeChar]
    unfold startsBehindNewlines
    dsimp only
    split
    · next here =>
      subst here
      rw [ih]
      rfl
    · next other =>
      rw [behindNewlines_eq_nil (newline_not_mem_utf8EncodeChar other), List.nil_append, ih]

theorem utf8Bytes_eq (text : String) :
    utf8Bytes text = text.toList.flatMap String.utf8EncodeChar := by
  have whole : utf8Bytes text = text.toByteArray.data.toList := toList_loop text.toByteArray 0 []
  rw [whole, ← String.utf8Encode_toList]
  exact List.toList_data_toByteArray

theorem LineMap.laterStarts_ofText (text : String) :
    (LineMap.ofText text).laterStarts = behindNewlines 0 (utf8Bytes text) := by
  rw [utf8Bytes_eq]
  exact startsBehindNewlines_eq 0 text.toList

/-! ## The line of a position -/

/-- Where the line of a position starts: at position zero or behind a newline, with no newline
from there to the position. -/
structure StartsLine (bytes : List UInt8) (position start : Nat) : Prop where
  start_le : start ≤ position
  behind : start = 0 ∨ ∃ index, bytes[index]? = some newline ∧ start = index + 1
  clean : ∀ index, start ≤ index → index < position → bytes[index]? ≠ some newline

namespace LineMap

/-- The positions at which lines start, the first one in front. -/
def starts (lines : LineMap) : List Nat := 0 :: lines.laterStarts

theorem startOf_eq (lines : LineMap) {line start : Nat} (there : lines.starts[line]? = some start) :
    lines.startOf line = start := by
  cases line with
  | zero => exact Option.some.inj there
  | succ line =>
    have later : lines.laterStarts[line]? = some start := there
    rw [startOf, List.getD_eq_getElem?_getD, later]
    rfl

variable (text : String)

theorem mem_starts_ofText {start : Nat} :
    start ∈ (ofText text).starts ↔
      start = 0 ∨ ∃ index, (utf8Bytes text)[index]? = some newline ∧ start = index + 1 := by
  unfold starts
  rw [List.mem_cons, laterStarts_ofText, mem_behindNewlines]
  simp only [Nat.zero_add]

theorem ascending_starts_ofText : (ofText text).starts.Pairwise (· < ·) := by
  refine .cons (fun start member => ?_) ?_
  · rw [laterStarts_ofText] at member
    rcases mem_behindNewlines.mp member with ⟨index, -, same⟩
    omega
  · rw [laterStarts_ofText]
    exact ascending_behindNewlines _ _

/-- The line of a position is the last one of those that start at or in front of it. -/
theorem countP_starts_eq (lines : LineMap) (position : Nat) :
    lines.starts.countP (· ≤ position) = lines.lineOf position + 1 := by
  simp [starts, lineOf]

/-- The line of a position starts where the bytes say. -/
theorem startsLine_ofText (position : Nat) :
    (ofText text).starts[(ofText text).lineOf position]? =
        some ((ofText text).startOf ((ofText text).lineOf position)) ∧
      StartsLine (utf8Bytes text) position
        ((ofText text).startOf ((ofText text).lineOf position)) := by
  have ascending := ascending_starts_ofText text
  have counted := (ofText text).countP_starts_eq position
  have inside : (ofText text).lineOf position < (ofText text).starts.length := by
    have most : (ofText text).starts.countP (· ≤ position) ≤ (ofText text).starts.length :=
      List.countP_le_length
    omega
  cases own : (ofText text).starts[(ofText text).lineOf position]? with
  | none => exact absurd (List.getElem?_eq_none_iff.mp own) (by omega)
  | some start =>
    rw [startOf_eq _ own]
    refine ⟨rfl, ?_, (mem_starts_ofText text).mp (List.mem_of_getElem? own), ?_⟩
    · rw [le_iff_lt_countP ascending own]
      omega
    -- a newline on the way would start a line that is later and yet not behind the position
    · intro index behind front there
      have begins : index + 1 ∈ (ofText text).starts :=
        (mem_starts_ofText text).mpr (.inr ⟨index, there, rfl⟩)
      rcases List.getElem?_of_mem begins with ⟨line, other⟩
      have early := (le_iff_lt_countP ascending other position).mp front
      have late := (not_congr (le_iff_lt_countP ascending other start)).mp
        (Nat.not_le_of_lt (Nat.lt_succ_of_le behind))
      have last := (le_iff_lt_countP ascending own start).mp (Nat.le_refl _)
      omega

/-- Every search of the starts tells the line of the position. -/
theorem lineTold_of_sought {position : Nat} {answer : Except Nat Nat}
    (sought : Sought (ofText text).starts position answer) :
    lineTold? answer = some ((ofText text).lineOf position) := by
  have counted := (ofText text).countP_starts_eq position
  cases sought with
  | @hit front back parts =>
    have ascending := ascending_starts_ofText text
    rw [parts, List.append_cons] at ascending counted
    rcases List.pairwise_append.mp ascending with ⟨ascendingFront, -, apart⟩
    rcases List.pairwise_append.mp ascendingFront with ⟨-, -, below⟩
    have line : (front ++ [position]).length = (ofText text).lineOf position + 1 := by
      rw [← counted, countP_of_parts (fun value member => ?_) fun value member =>
        apart position (List.mem_append_right _ (List.mem_singleton_self _)) value member]
      rcases List.mem_append.mp member with inFront | last
      · exact Nat.le_of_lt (below value inFront position (List.mem_singleton_self _))
      · exact Nat.le_of_eq (List.mem_singleton.mp last)
    rw [List.length_append, List.length_singleton] at line
    exact congrArg some (Nat.succ.inj line)
  | @miss front back parts below above =>
    rw [parts, countP_of_parts (fun value member => Nat.le_of_lt (below value member)) above]
      at counted
    rw [counted]
    rfl

/-- Of a text that is short enough, every start of a line can be told as a position, and so can
the number of every line. -/
theorem isPosition_of_short (short : (utf8Bytes text).length < capacity 32) :
    (∀ start ∈ (ofText text).starts, isPosition start = true) ∧
      ∀ position, isPosition ((ofText text).lineOf position) = true := by
  refine ⟨fun start member => decide_eq_true ?_, fun position => decide_eq_true ?_⟩
  · rcases (mem_starts_ofText text).mp member with rfl | ⟨index, there, rfl⟩
    · exact Nat.lt_of_le_of_lt (Nat.zero_le _) short
    · have inside := (List.getElem?_eq_some_iff.mp there).1
      exact Nat.lt_of_le_of_lt inside short
  · have most : (ofText text).lineOf position ≤ (ofText text).laterStarts.length :=
      List.countP_le_length
    rw [laterStarts_ofText, length_behindNewlines] at most
    exact Nat.lt_of_le_of_lt (Nat.le_trans most List.count_le_length) short

/-- The line map of a text that is short enough has one line more than the text has newlines, and
the starts of its lines are positions.  At every position, also past the end, a search of the
starts has an answer, and whatever it answers tells the line of the position, which is the number
of newlines among the bytes in front of it.  The column is the distance from where that line
starts, at or in front of the position: behind the last newline in front of it, or at the front of
the text. -/
theorem lineColumn_of_bytes (short : (utf8Bytes text).length < capacity 32) (position : Nat) :
    (ofText text).lineCount = (utf8Bytes text).count newline + 1 ∧
      (∀ start ∈ (ofText text).starts, isPosition start = true) ∧
      isPosition ((ofText text).lineOf position) = true ∧
      (∃ answer, Sought (ofText text).starts position answer) ∧
      (∀ answer, Sought (ofText text).starts position answer →
        lineTold? answer = some ((ofText text).lineOf position)) ∧
      (ofText text).lineOf position = ((utf8Bytes text).take position).count newline ∧
      ∃ start, (ofText text).starts[(ofText text).lineOf position]? = some start ∧
        StartsLine (utf8Bytes text) position start ∧
        (ofText text).lineColumnOf position =
          ⟨(ofText text).lineOf position, position - start⟩ := by
  rcases isPosition_of_short text short with ⟨starts, lines⟩
  rcases startsLine_ofText text position with ⟨begins, startsLine⟩
  refine ⟨?_, starts, lines position, exists_sought (ascending_starts_ofText text) position,
    fun _ sought => lineTold_of_sought text sought, ?_, _, begins, startsLine, rfl⟩
  · rw [lineCount, laterStarts_ofText, length_behindNewlines]
  · rw [lineOf, laterStarts_ofText, countP_behindNewlines, Nat.sub_zero]

/-- Past the end of a text the last line goes on, here behind a character of two bytes and an
empty line. -/
theorem lineColumn_of_bytes_pastEnd :
    (utf8Bytes "é\n\nx").length < capacity 32 ∧
      Sought (ofText "é\n\nx").starts 9 (.error 3) ∧
      (ofText "é\n\nx").lineCount = 3 ∧
      ((utf8Bytes "é\n\nx").take 9).count newline = 2 ∧
      StartsLine (utf8Bytes "é\n\nx") 9 4 ∧
      (ofText "é\n\nx").lineColumnOf 9 = ⟨2, 5⟩ := by
  have bytes : utf8Bytes "é\n\nx" = [0xC3, 0xA9, 0x0A, 0x0A, 0x78] := by
    rw [utf8Bytes_eq]
    decide
  have starts : (ofText "é\n\nx").starts = [0, 3, 4] := by decide
  have short : (utf8Bytes "é\n\nx").length < capacity 32 := by
    rw [bytes]
    decide
  have sought : Sought (ofText "é\n\nx").starts 9 (.error 3) :=
    .miss (starts.trans (List.append_nil [0, 3, 4]).symm) (by decide)
      fun value member => absurd member List.not_mem_nil
  rcases lineColumn_of_bytes "é\n\nx" short 9 with
    ⟨lines, -, -, -, told, counted, start, begins, startsLine, place⟩
  have line : (ofText "é\n\nx").lineOf 9 = 2 := (Option.some.inj (told _ sought)).symm
  rw [line] at counted begins place
  rw [starts] at begins
  cases begins
  exact ⟨short, sought, lines.trans (by rw [bytes]; rfl), counted.symm, startsLine, place⟩

end LineMap

end CppNames
