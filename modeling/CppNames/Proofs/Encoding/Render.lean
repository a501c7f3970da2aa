import CppNames.Encoding.Render
import CppNames.Fault
import CppNames.Proofs.Encoding.Complete
import Mathlib.Data.List.Forall2

namespace CppNames
namespace Encoding

/-!
# Rendering reads what an extent covers

An extent and a rendering read the same format, and they end at the same place.  They differ in
one thing.  An extent passes over the packed arguments of a template-id, and a rendering looks
into them: it takes them apart by their extents.  An extent may tell of more bytes than are
packed, since it does not look whether the arguments that a nested template-id packs are there.
Then there is no answer.  `Legible` says of an encoding that this happens nowhere inside it.

So a rendering has an answer exactly where an extent lies within the bytes and covers something
legible.  Everything else that an extent covers is an overrun, never a malformed encoding.
Complete encodings are legible.
-/

/-- Types and names that can be shown.  Packed arguments are types one behind the other, up to
bytes that begin with no type or name. -/
abbrev Legible : List UInt8 → Prop := Spelled fun rest => extent rest = none

variable {loose : List UInt8 → Prop} {bytes : List UInt8} {parts : List (List UInt8)}

/-! ## Outcomes -/

section Outcomes

variable {α β : Type} {outcome : Except Flaw α} {next : α → Except Flaw β}

/-- Not malformed: a value or an overrun. -/
def Fair (outcome : Except Flaw α) : Prop := outcome ≠ .error .malformed

theorem fair_ok (value : α) : Fair (.ok value) := fun same => nomatch same

theorem fair_overrun : Fair (.error .overrun : Except Flaw α) := fun same => nomatch same

theorem Fair.bind (fair : Fair outcome) (fairNext : ∀ value, Fair (next value)) :
    Fair (outcome >>= next) := by
  cases outcome with
  | error flaw => exact fun same => fair (congrArg Except.error (Except.error.inj same))
  | ok value => exact fairNext value

theorem Fair.map (fair : Fair outcome) (change : α → β) : Fair (outcome.map change) :=
  fair.bind fun value => fair_ok (change value)

variable {read : α → Except Flaw β} {values : List α}

theorem fair_mapM (fair : ∀ value ∈ values, Fair (read value)) : Fair (values.mapM read) := by
  induction values with
  | nil => exact fair_ok []
  | cons first rest ih =>
    rcases List.forall_mem_cons.mp fair with ⟨head, tail⟩
    rw [List.mapM_cons]
    exact head.bind fun _ => (ih tail).bind fun _ => fair_ok _

theorem mapM_eq_ok_iff {results : List β} :
    values.mapM read = .ok results ↔
      List.Forall₂ (fun value result => read value = .ok result) values results := by
  induction values generalizing results with
  | nil =>
    rw [List.forall₂_nil_left_iff]
    exact ⟨fun ran => (Except.ok.inj ran).symm, fun none => congrArg Except.ok none.symm⟩
  | cons first rest ih =>
    rw [List.mapM_cons, List.forall₂_cons_left_iff]
    constructor
    · intro ran
      rcases Outcome.of_bind ran with ⟨head, readHead, ran⟩
      rcases Outcome.of_bind ran with ⟨tail, readTail, same⟩
      exact ⟨head, tail, readHead, ih.mp readTail, (Except.ok.inj same).symm⟩
    · rintro ⟨head, tail, readHead, readTail, rfl⟩
      rw [readHead, ih.mpr readTail]
      rfl

theorem exists_mapM (all : ∀ value ∈ values, ∃ result, read value = .ok result) :
    ∃ results, values.mapM read = .ok results := by
  induction values with
  | nil => exact ⟨[], rfl⟩
  | cons first rest ih =>
    rcases List.forall_mem_cons.mp all with ⟨⟨head, readHead⟩, tail⟩
    rcases ih tail with ⟨results, readTail⟩
    refine ⟨head :: results, ?_⟩
    rw [List.mapM_cons, readHead, readTail]
    rfl

theorem exists_of_mapM {results : List β} (ran : values.mapM read = .ok results) :
    ∀ value ∈ values, ∃ result, read value = .ok result := by
  have pairs := mapM_eq_ok_iff.mp ran
  clear ran
  induction pairs with
  | nil => exact fun _ member => absurd member List.not_mem_nil
  | cons found _ ih => exact List.forall_mem_cons.mpr ⟨⟨_, found⟩, ih⟩

end Outcomes

/-! ## What is shown of a type or name -/

/-- What is shown of bytes read by themselves. -/
def shownText (bytes : List UInt8) : Except Flaw String :=
  (renderWithin bytes.length bytes).map Prod.fst

/-- At the front of any bytes that begin with these, every depth that is no less than their
number shows the same and reads as many. -/
def Shows (bytes : List UInt8) (outcome : Except Flaw String) : Prop :=
  ∀ depth behind, bytes.length ≤ depth →
    renderWithin depth (bytes ++ behind) = outcome.map fun text => (text, bytes.length)

theorem Shows.shownText_eq {outcome : Except Flaw String} (shows : Shows bytes outcome) :
    shownText bytes = outcome := by
  have whole := shows bytes.length [] (Nat.le_refl _)
  rw [List.append_nil] at whole
  unfold shownText
  rw [whole]
  cases outcome with
  | error flaw => rfl
  | ok text => rfl

/-- What is shown of these bytes does not depend on what stands behind them. -/
def Steady (bytes : List UInt8) : Prop := Shows bytes (shownText bytes)

theorem Shows.steady {outcome : Except Flaw String} (shows : Shows bytes outcome) :
    Steady bytes := by
  unfold Steady
  rw [shows.shownText_eq]
  exact shows

/-- What is shown of an encoding: the same everywhere, never malformed, and a text only where
the encoding is legible. -/
structure Settles (bytes : List UInt8) : Prop where
  steady : Steady bytes
  fair : Fair (shownText bytes)
  legible {text : String} : shownText bytes = .ok text → Legible bytes

theorem Shows.settles {outcome : Except Flaw String} (shows : Shows bytes outcome)
    (fair : Fair outcome) (legible : ∀ text, outcome = .ok text → Legible bytes) :
    Settles bytes := by
  refine ⟨shows.steady, ?_, fun {text} ran => ?_⟩
  · rw [shows.shownText_eq]
    exact fair
  · rw [shows.shownText_eq] at ran
    exact legible text ran

theorem shows_cons {byte : UInt8} {rest : List UInt8} {outcome : Except Flaw String}
    (reads : ∀ depth behind, rest.length ≤ depth → renderWithin (depth + 1)
      (byte :: (rest ++ behind)) = outcome.map fun text => (text, rest.length + 1)) :
    Shows (byte :: rest) outcome := by
  intro depth behind deep
  cases depth with
  | zero => exact absurd deep (Nat.not_succ_le_zero _)
  | succ depth => exact reads depth behind (Nat.le_of_succ_le_succ deep)

theorem renderParametersWithin_flatten (spelled : ∀ part ∈ parts, Spelled loose part)
    (settles : ∀ part ∈ parts, Settles part) {depth : Nat} (deep : parts.flatten.length < depth)
    (behind : List UInt8) :
    renderParametersWithin depth (parts.flatten ++ code '_' :: behind) =
      (parts.mapM shownText).map fun texts => (texts, parts.flatten.length + 1) := by
  induction parts generalizing depth with
  | nil =>
    cases depth with
    | zero => exact absurd deep (Nat.not_lt_zero _)
    | succ depth => rw [List.flatten_nil, List.nil_append, renderParametersWithin, if_pos rfl]; rfl
  | cons first rest ih =>
    rcases List.forall_mem_cons.mp spelled with ⟨firstSpelled, restSpelled⟩
    rcases List.forall_mem_cons.mp settles with ⟨firstSettles, restSettles⟩
    have one := firstSpelled.length_pos
    rcases firstSpelled.starts with ⟨byte, more, same, goesOn⟩
    rw [List.flatten_cons, List.length_append] at deep
    cases depth with
    | zero => exact absurd deep (Nat.not_lt_zero _)
    | succ depth =>
      have front := firstSettles.steady depth (rest.flatten ++ code '_' :: behind) (by omega)
      have back := ih restSpelled restSettles (show rest.flatten.length < depth by omega)
      have whole : first ++ (rest.flatten ++ code '_' :: behind) =
          byte :: (more ++ (rest.flatten ++ code '_' :: behind)) := by rw [same]; rfl
      rw [List.flatten_cons, List.append_assoc, whole, renderParametersWithin, if_neg goesOn,
        ← whole, front, List.mapM_cons, List.length_append]
      cases shownText first with
      | error flaw => rfl
      | ok text =>
        change (renderParametersWithin depth ((first ++ _).drop first.length) >>= _) = _
        rw [List.drop_left, back]
        cases rest.mapM shownText with
        | error flaw => rfl
        | ok texts => exact congrArg (fun length => Except.ok (text :: texts, length)) (by omega)

theorem renderComponentsWithin_flatten (spelled : ∀ part ∈ parts, Spelled loose part)
    (settles : ∀ part ∈ parts, Settles part) {depth : Nat} (deep : parts.flatten.length < depth)
    (behind : List UInt8) :
    renderComponentsWithin depth parts.length (parts.flatten ++ behind) =
      (parts.mapM shownText).map fun texts => (texts, parts.flatten.length) := by
  induction parts generalizing depth with
  | nil => rw [List.length_nil, renderComponentsWithin]; rfl
  | cons first rest ih =>
    rcases List.forall_mem_cons.mp spelled with ⟨firstSpelled, restSpelled⟩
    rcases List.forall_mem_cons.mp settles with ⟨firstSettles, restSettles⟩
    have one := firstSpelled.length_pos
    rw [List.flatten_cons, List.length_append] at deep
    cases depth with
    | zero => exact absurd deep (Nat.not_lt_zero _)
    | succ depth =>
      have front := firstSettles.steady depth (rest.flatten ++ behind) (by omega)
      have back := ih restSpelled restSettles (show rest.flatten.length < depth by omega)
      rw [List.length_cons, List.flatten_cons, List.append_assoc, renderComponentsWithin, front,
        List.mapM_cons, List.length_append]
      cases shownText first with
      | error flaw => rfl
      | ok text =>
        change (renderComponentsWithin depth rest.length ((first ++ _).drop first.length) >>= _) = _
        rw [List.drop_left, back]
        cases rest.mapM shownText with
        | error flaw => rfl
        | ok texts => rfl

/-- One type or name in front of others. -/
theorem renderAllWithin_append {first : List UInt8} (spelled : Spelled loose first)
    (settles : Settles first) {depth : Nat} (deep : first.length ≤ depth) (behind : List UInt8) :
    renderAllWithin (depth + 1) (first ++ behind) =
      shownText first >>= fun text => (renderAllWithin depth behind).map (text ++ ·) := by
  rcases spelled.starts with ⟨byte, more, same, _⟩
  have read := settles.steady depth behind deep
  have whole : first ++ behind = byte :: (more ++ behind) := by rw [same]; rfl
  rw [whole] at read ⊢
  rw [renderAllWithin, read, ← whole]
  cases outcome : shownText first with
  | error flaw =>
    cases flaw with
    | malformed => exact absurd outcome settles.fair
    | overrun => rfl
  | ok text =>
    change (renderAllWithin depth ((first ++ behind).drop first.length)).map (text ++ ·) = _
    rw [List.drop_left]
    rfl

theorem renderAllWithin_flatten (spelled : ∀ part ∈ parts, Spelled loose part)
    (settles : ∀ part ∈ parts, Settles part) {depth : Nat} (deep : parts.flatten.length ≤ depth) :
    renderAllWithin (depth + 1) parts.flatten = (parts.mapM shownText).map String.join := by
  induction parts generalizing depth with
  | nil => rw [List.flatten_nil, renderAllWithin]; rfl
  | cons first rest ih =>
    rcases List.forall_mem_cons.mp spelled with ⟨firstSpelled, restSpelled⟩
    rcases List.forall_mem_cons.mp settles with ⟨firstSettles, restSettles⟩
    have one := firstSpelled.length_pos
    rw [List.flatten_cons, List.length_append] at deep
    cases depth with
    | zero => omega
    | succ depth =>
      have back := ih restSpelled restSettles (show rest.flatten.length ≤ depth by omega)
      rw [List.flatten_cons, renderAllWithin_append firstSpelled firstSettles (by omega),
        back, List.mapM_cons]
      cases shownText first with
      | error flaw => rfl
      | ok text =>
        cases rest.mapM shownText with
        | error flaw => rfl
        | ok texts => exact congrArg Except.ok String.join_cons.symm

theorem renderListWithin_map (spelled : ∀ part ∈ parts, Spelled loose part)
    (settles : ∀ part ∈ parts, Settles part) {depth : Nat} (deep : parts.flatten.length + 1 < depth) :
    renderListWithin depth (parts.map Encoding.mk) = parts.mapM shownText := by
  induction parts generalizing depth with
  | nil => rw [List.map_nil, renderListWithin]; rfl
  | cons first rest ih =>
    rcases List.forall_mem_cons.mp spelled with ⟨firstSpelled, restSpelled⟩
    rcases List.forall_mem_cons.mp settles with ⟨firstSettles, restSettles⟩
    have one := firstSpelled.length_pos
    rw [List.flatten_cons, List.length_append] at deep
    cases depth with
    | zero => omega
    | succ depth =>
      cases depth with
      | zero => omega
      | succ depth =>
        have front := renderAllWithin_append firstSpelled firstSettles
          (show first.length ≤ depth by omega) []
        have back := ih restSpelled restSettles
          (show rest.flatten.length + 1 < depth + 1 by omega)
        rw [List.append_nil] at front
        rw [List.map_cons, renderListWithin, front, back, List.mapM_cons, renderAllWithin]
        cases shownText first with
        | error flaw => rfl
        | ok text =>
          change (Except.ok (text ++ "") >>= _) = _
          rw [String.append_empty]
          rfl

section Marks

variable {byte : UInt8} {target owner member result : List UInt8}

theorem shows_modifier (mark : Mark.ofByte byte = .modifier) (starts : target ≠ [])
    (steady : Steady target) :
    Shows (byte :: target) ((shownText target).map (modified byte target)) := by
  refine shows_cons fun depth behind deep => ?_
  have sameHead : (target ++ behind).head? = target.head? := by
    cases target with
    | nil => exact absurd rfl starts
    | cons first more => rfl
  have sameText (inner : String) : modified byte (target ++ behind) inner =
      modified byte target inner := by
    unfold modified
    rw [sameHead]
  simp only [renderWithin, mark, steady depth behind deep]
  cases shownText target with
  | error flaw => rfl
  | ok text =>
    change Except.ok (modified byte (target ++ behind) text, 1 + target.length) = _
    rw [sameText, Nat.add_comm]
    rfl

theorem shows_array (mark : Mark.ofByte byte = .array) {digits : List UInt8}
    (noEnd : code '_' ∉ digits) (steady : Steady target) :
    Shows (byte :: (digits ++ code '_' :: target)) ((shownText target).map fun inner =>
      inner ++ "[" ++ String.ofList (digits.map fun digit => Char.ofNat digit.toNat) ++ "]") := by
  refine shows_cons fun depth behind deep => ?_
  rw [List.length_append, List.length_cons] at deep
  have length := arrayLengthExtent_append noEnd (target ++ behind)
  have dropped : (digits ++ code '_' :: (target ++ behind)).drop (digits.length + 1) =
      target ++ behind := by
    rw [List.drop_length_add_append]
    rfl
  rw [List.append_assoc, List.cons_append]
  simp only [renderWithin, mark, length, dropped, steady depth behind (by omega)]
  cases shownText target with
  | error flaw => rfl
  | ok text =>
    simp only [Except.map, Except.bind, bind, Nat.add_sub_cancel, List.take_left,
      List.length_append, List.length_cons, Except.ok.injEq, Prod.mk.injEq, true_and]
    omega

theorem shows_memberPointer (mark : Mark.ofByte byte = .memberPointer)
    (steadyOwner : Steady owner) (steadyMember : Steady member) :
    Shows (byte :: (owner ++ member)) (shownText owner >>= fun ownerText =>
      (shownText member).map fun memberText => s!"{memberText} {ownerText}::*") := by
  refine shows_cons fun depth behind deep => ?_
  rw [List.length_append] at deep
  rw [List.append_assoc]
  simp only [renderWithin, mark, steadyOwner depth (member ++ behind) (by omega)]
  cases shownText owner with
  | error flaw => rfl
  | ok ownerText =>
    simp only [Except.map, Except.bind, bind, List.drop_left,
      steadyMember depth behind (by omega)]
    cases shownText member with
    | error flaw => rfl
    | ok memberText =>
      simp only [List.length_append, Except.ok.injEq, Prod.mk.injEq, true_and]
      omega

theorem shows_function (mark : Mark.ofByte byte = .function)
    (spelled : ∀ part ∈ parts, Spelled loose part) (settles : ∀ part ∈ parts, Settles part)
    (steadyResult : Steady result) :
    Shows (byte :: (parts.flatten ++ code '_' :: result)) (parts.mapM shownText >>= fun texts =>
      (shownText result).map fun text => functionText texts text) := by
  refine shows_cons fun depth behind deep => ?_
  rw [List.length_append, List.length_cons] at deep
  have front := renderParametersWithin_flatten spelled settles
    (show parts.flatten.length < depth by omega) (result ++ behind)
  have dropped : (parts.flatten ++ code '_' :: (result ++ behind)).drop
      (parts.flatten.length + 1) = result ++ behind := by
    rw [List.drop_length_add_append]
    rfl
  rw [List.append_assoc, List.cons_append]
  simp only [renderWithin, mark, front]
  cases parts.mapM shownText with
  | error flaw => rfl
  | ok texts =>
    simp only [Except.map, Except.bind, bind, dropped, steadyResult depth behind (by omega)]
    cases shownText result with
    | error flaw => rfl
    | ok text =>
      simp only [List.length_append, List.length_cons, Except.ok.injEq, Prod.mk.injEq, true_and]
      omega

theorem shows_qualified (mark : Mark.ofByte byte = .qualified) {count : UInt8}
    (counted : lengthOf? count = some parts.length)
    (spelled : ∀ part ∈ parts, Spelled loose part) (settles : ∀ part ∈ parts, Settles part) :
    Shows (byte :: count :: parts.flatten) ((parts.mapM shownText).map ("::".intercalate ·)) := by
  refine shows_cons fun depth behind deep => ?_
  rw [List.length_cons] at deep
  have back := renderComponentsWithin_flatten spelled settles
    (show parts.flatten.length < depth by omega) behind
  have first : firstLength (count :: (parts.flatten ++ behind)) = .ok parts.length := by
    unfold firstLength
    rw [List.head?_cons, Option.bind_eq_bind, Option.bind_some, counted]
  rw [List.cons_append]
  simp only [renderWithin, mark, first, Except.bind, bind, List.drop_succ_cons, List.drop_zero,
    back]
  cases parts.mapM shownText with
  | error flaw => rfl
  | ok texts =>
    simp only [Except.map, List.length_cons, Except.ok.injEq, Prod.mk.injEq, true_and]
    omega

/-- A template-id whose packed bytes are taken apart into arguments, or cannot be. -/
theorem shows_template (mark : Mark.ofByte byte = .template) {packed : UInt8}
    {name arguments : List UInt8} (starts : 0 < name.length) (steadyName : Steady name)
    (told : lengthOf? packed = some arguments.length) {texts : Except Flaw (List String)}
    (lists : ∀ depth, arguments.length + 1 < depth →
      (splitTypes arguments >>= renderListWithin depth) = texts) :
    Shows (byte :: (name ++ packed :: arguments)) (shownText name >>= fun nameText =>
      texts.map fun shownTexts => nameText ++ "<" ++ ",".intercalate shownTexts ++ ">") := by
  refine shows_cons fun depth behind deep => ?_
  rw [List.length_append, List.length_cons] at deep
  have front := steadyName depth (packed :: (arguments ++ behind)) (by omega)
  have first : firstLength (packed :: (arguments ++ behind)) = .ok arguments.length := by
    unfold firstLength
    rw [List.head?_cons, Option.bind_eq_bind, Option.bind_some, told]
  have within : arguments.length ≤ (arguments ++ behind).length := by
    rw [List.length_append]
    exact Nat.le_add_right _ _
  rw [List.append_assoc, List.cons_append]
  simp only [renderWithin, mark, front]
  cases shownText name with
  | error flaw => rfl
  | ok nameText =>
    have split := lists depth (by omega)
    simp only [bind, Except.map, Except.bind] at split ⊢
    simp only [List.drop_left, first, List.drop_succ_cons, List.drop_zero, if_pos within,
      List.take_left, ← split]
    cases splitTypes arguments with
    | error flaw => rfl
    | ok found =>
      dsimp only
      cases renderListWithin depth found with
      | error flaw => rfl
      | ok shownTexts =>
        simp only [List.length_append, List.length_cons, Except.ok.injEq, Prod.mk.injEq, true_and]
        omega

end Marks

theorem shows_builtin {byte : UInt8} {text : String} (mark : Mark.ofByte byte = .builtin text) :
    Shows [byte] (.ok text) := by
  refine shows_cons fun depth behind _ => ?_
  simp only [renderWithin, mark]
  rfl

theorem shows_name {byte : UInt8} {name : List UInt8}
    (mark : Mark.ofByte byte = .name name.length) :
    Shows (byte :: name) (.ok (textOfUtf8 name)) := by
  refine shows_cons fun depth behind _ => ?_
  have within : name.length ≤ (name ++ behind).length := by
    rw [List.length_append]
    exact Nat.le_add_right _ _
  simp only [renderWithin, mark, if_pos within, List.take_left, Nat.add_comm]
  rfl

/-! ## Packed arguments -/

/-- Bytes are taken apart into types or names up to where none begins, or into nothing at all
where one of them tells of more bytes than there are. -/
theorem fronts_eq {count : Nat} (enough : bytes.length ≤ count) :
    fronts count bytes = .error .overrun ∨ ∃ (parts : List (List UInt8)) (rest : List UInt8),
      bytes = parts.flatten ++ rest ∧ (∀ part ∈ parts, Whole part) ∧ extent rest = none ∧
      fronts count bytes = .ok (parts.map Encoding.mk) := by
  induction count generalizing bytes with
  | zero =>
    have none : bytes = [] := List.eq_nil_of_length_eq_zero (Nat.le_zero.mp enough)
    subst none
    exact .inr ⟨[], [], rfl, fun _ member => absurd member List.not_mem_nil, rfl, rfl⟩
  | succ count ih =>
    rw [fronts]
    cases found : extent bytes with
    | none =>
      have malformed : front bytes = .error .malformed := by
        unfold front
        rw [found]
      rw [malformed]
      exact .inr ⟨[], bytes, rfl, fun _ member => absurd member List.not_mem_nil, found, rfl⟩
    | some length =>
      by_cases within : length ≤ bytes.length
      · rcases begins_of_extent found within with ⟨first, behind, rfl, rfl, whole⟩
        have one := whole.length_pos
        rw [List.length_append] at enough
        have head : front (first ++ behind) = .ok (⟨first⟩, behind) :=
          @front_append _ ⟨first⟩ whole behind
        rw [head]
        rcases ih (show behind.length ≤ count by omega) with
          overrun | ⟨parts, rest, rfl, wholes, ends, split⟩
        · simp only [overrun]
          exact .inl rfl
        · simp only [split]
          exact .inr ⟨first :: parts, rest, (List.append_assoc ..).symm,
            List.forall_mem_cons.mpr ⟨whole, wholes⟩, ends, rfl⟩
      · have overrun : front bytes = .error .overrun := by
          unfold front
          rw [found]
          exact if_neg within
        rw [overrun]
        exact .inl rfl

theorem splitTypes_flatten (spelled : ∀ part ∈ parts, Spelled loose part) {rest : List UInt8}
    (ends : extent rest = none) :
    splitTypes (parts.flatten ++ rest) = .ok (parts.map Encoding.mk) := by
  have same : (parts.map Encoding.mk).map Encoding.bytes = parts := by
    rw [List.map_map]
    exact List.map_id' parts
  have bytes : (concat (parts.map Encoding.mk)).bytes = parts.flatten := by
    rw [bytes_concat, same]
  have spelledAll : ∀ part ∈ parts.map Encoding.mk, Spelled loose part.bytes := by
    intro part member
    rcases List.mem_map.mp member with ⟨listed, inside, rfl⟩
    exact spelled listed inside
  have few : (parts.map Encoding.mk).length ≤ (parts.flatten ++ rest).length := by
    have bound := length_le_flatten spelled
    rw [List.length_map, List.length_append]
    omega
  have split := fronts_append spelledAll (.inr ⟨few, ends⟩)
  rw [bytes] at split
  exact split

/-! ## Shown or an overrun -/

theorem length_le_of_mem {part : List UInt8} (member : part ∈ parts) :
    part.length ≤ parts.flatten.length :=
  (List.sublist_flatten_of_mem member).length_le

/-- A list of types that is shown is legible throughout. -/
theorem legible_of_mapM (settles : ∀ part ∈ parts, Settles part) {texts : List String}
    (ran : parts.mapM shownText = .ok texts) : ∀ part ∈ parts, Legible part := by
  intro part member
  rcases exists_of_mapM ran part member with ⟨text, found⟩
  exact (settles part member).legible found

/-- The arguments of packed bytes that are taken apart are shown one by one. -/
theorem renderListWithin_splitTypes {rest : List UInt8} (wholes : ∀ part ∈ parts, Whole part)
    (settles : ∀ part ∈ parts, Settles part)
    (split : splitTypes (parts.flatten ++ rest) = .ok (parts.map Encoding.mk)) (depth : Nat)
    (deep : (parts.flatten ++ rest).length + 1 < depth) :
    (splitTypes (parts.flatten ++ rest) >>= renderListWithin depth) = parts.mapM shownText := by
  rw [List.length_append] at deep
  rw [split]
  exact renderListWithin_map wholes settles (by omega)

theorem settles_template {byte packed : UInt8} {name arguments : List UInt8}
    (mark : Mark.ofByte byte = .template) (told : lengthOf? packed = some arguments.length)
    (wholeName : Whole name) (settlesName : Settles name)
    (settles : ∀ part, Whole part → part.length ≤ arguments.length → Settles part) :
    Settles (byte :: (name ++ packed :: arguments)) := by
  rcases fronts_eq (Nat.le_refl arguments.length) with
    overrun | ⟨parts, rest, rfl, wholes, ends, split⟩
  · have lists (depth : Nat) (_ : arguments.length + 1 < depth) :
        (splitTypes arguments >>= renderListWithin depth) = .error .overrun := by
      unfold splitTypes
      rw [overrun]
      rfl
    have shows := shows_template mark wholeName.length_pos settlesName.steady told lists
    refine shows.settles (settlesName.fair.bind fun _ => fair_overrun) fun text ran => ?_
    rcases Outcome.of_bind ran with ⟨_, _, impossible⟩
    cases impossible
  · have all : ∀ part ∈ parts, Settles part := by
      intro part member
      have short := length_le_of_mem member
      exact settles part (wholes part member) (by rw [List.length_append]; omega)
    have fair : ∀ part ∈ parts, Fair (shownText part) := fun part member => (all part member).fair
    have lists := renderListWithin_splitTypes wholes all split
    have shows := shows_template mark wholeName.length_pos settlesName.steady told lists
    refine shows.settles (settlesName.fair.bind fun _ => (fair_mapM fair).map _) fun text ran => ?_
    rcases Outcome.of_bind ran with ⟨nameText, shownName, ran⟩
    rcases Outcome.of_map ran with ⟨texts, shownParts, _⟩
    exact .template mark (settlesName.legible shownName) told (legible_of_mapM all shownParts) ends

theorem Spelled.settles (whole : Whole bytes) : Settles bytes := by
  induction size : bytes.length using Nat.strongRecOn generalizing bytes with
  | ind size ih =>
    subst size
    have smaller {part : List UInt8} (wholePart : Whole part)
        (short : part.length < bytes.length) : Settles part := ih part.length short wholePart rfl
    cases whole with
    | @modifier byte target mark wholeTarget =>
      have settles := smaller wholeTarget (Nat.lt_succ_self _)
      have starts : target ≠ [] := List.ne_nil_of_length_pos wholeTarget.length_pos
      refine (shows_modifier mark starts settles.steady).settles (settles.fair.map _) ?_
      intro text ran
      rcases Outcome.of_map ran with ⟨inner, shownTarget, _⟩
      exact .modifier mark (settles.legible shownTarget)
    | @array byte digits element mark noEnd wholeElement =>
      have settles := smaller wholeElement (by grind)
      refine (shows_array mark noEnd settles.steady).settles (settles.fair.map _) ?_
      intro text ran
      rcases Outcome.of_map ran with ⟨inner, shownElement, _⟩
      exact .array mark noEnd (settles.legible shownElement)
    | @memberPointer byte owner member mark wholeOwner wholeMember =>
      have settlesOwner := smaller wholeOwner (by grind)
      have settlesMember := smaller wholeMember (by grind)
      refine (shows_memberPointer mark settlesOwner.steady settlesMember.steady).settles
        (settlesOwner.fair.bind fun _ => settlesMember.fair.map _) ?_
      intro text ran
      rcases Outcome.of_bind ran with ⟨ownerText, shownOwner, ran⟩
      rcases Outcome.of_map ran with ⟨memberText, shownMember, _⟩
      exact .memberPointer mark (settlesOwner.legible shownOwner)
        (settlesMember.legible shownMember)
    | @function byte parameters result mark wholes wholeResult =>
      have settlesResult := smaller wholeResult (by grind)
      have settles : ∀ part ∈ parameters, Settles part := by
        intro part member
        have short := length_le_of_mem member
        exact smaller (wholes part member)
          (by simp only [List.length_cons, List.length_append]; omega)
      refine (shows_function mark wholes settles settlesResult.steady).settles ?_ ?_
      · exact (fair_mapM fun part member => (settles part member).fair).bind fun _ =>
          settlesResult.fair.map _
      · intro text ran
        rcases Outcome.of_bind ran with ⟨texts, shownParameters, ran⟩
        rcases Outcome.of_map ran with ⟨resultText, shownResult, _⟩
        exact .function mark (legible_of_mapM settles shownParameters)
          (settlesResult.legible shownResult)
    | @qualified byte count components mark counted wholes =>
      have settles : ∀ part ∈ components, Settles part := by
        intro part member
        have short := length_le_of_mem member
        exact smaller (wholes part member) (by simp only [List.length_cons]; omega)
      refine (shows_qualified mark counted wholes settles).settles ?_ ?_
      · exact (fair_mapM fun part member => (settles part member).fair).map _
      · intro text ran
        rcases Outcome.of_map ran with ⟨texts, shownComponents, _⟩
        exact .qualified mark counted (legible_of_mapM settles shownComponents)
    | @template byte packed name rest arguments mark wholeName told _ _ =>
      have settlesName := smaller wholeName (by grind)
      refine settles_template mark told wholeName settlesName fun part wholePart short => ?_
      exact smaller wholePart (by grind)
    | builtin mark =>
      exact (shows_builtin mark).settles (fair_ok _) fun _ _ => .builtin mark
    | name mark => exact (shows_name mark).settles (fair_ok _) fun _ _ => .name mark

/-- A legible encoding is whole. -/
theorem Legible.whole (legible : Legible bytes) : Whole bytes := legible.weaken fun _ _ => trivial

theorem legible_of_complete {encoding : Encoding} (complete : Complete encoding) :
    Legible encoding.bytes := by
  apply complete.spelled.weaken
  rintro _ rfl
  rfl

/-- What is legible is shown. -/
theorem Legible.exists_text (legible : Legible bytes) : ∃ text, shownText bytes = .ok text := by
  have settlesOf {part : List UInt8} (legiblePart : Legible part) : Settles part :=
    legiblePart.whole.settles
  induction legible with
  | @modifier byte target mark legibleTarget ih =>
    rcases ih with ⟨inner, shownTarget⟩
    have starts : target ≠ [] := List.ne_nil_of_length_pos legibleTarget.length_pos
    rw [(shows_modifier mark starts (settlesOf legibleTarget).steady).shownText_eq, shownTarget]
    exact ⟨_, rfl⟩
  | array mark noEnd legibleElement ih =>
    rcases ih with ⟨inner, shownElement⟩
    rw [(shows_array mark noEnd (settlesOf legibleElement).steady).shownText_eq, shownElement]
    exact ⟨_, rfl⟩
  | memberPointer mark legibleOwner legibleMember ihOwner ihMember =>
    rcases ihOwner with ⟨ownerText, shownOwner⟩
    rcases ihMember with ⟨memberText, shownMember⟩
    have shows := shows_memberPointer mark (settlesOf legibleOwner).steady
      (settlesOf legibleMember).steady
    rw [shows.shownText_eq, shownOwner, shownMember]
    exact ⟨_, rfl⟩
  | function mark legibles legibleResult ih ihResult =>
    rcases exists_mapM ih with ⟨texts, shownParameters⟩
    rcases ihResult with ⟨resultText, shownResult⟩
    have shows := shows_function mark legibles (fun part member => settlesOf (legibles part member))
      (settlesOf legibleResult).steady
    rw [shows.shownText_eq, shownParameters, shownResult]
    exact ⟨_, rfl⟩
  | qualified mark counted legibles ih =>
    rcases exists_mapM ih with ⟨texts, shownComponents⟩
    have shows := shows_qualified mark counted legibles
      fun part member => settlesOf (legibles part member)
    rw [shows.shownText_eq, shownComponents]
    exact ⟨_, rfl⟩
  | @template byte packed name rest arguments mark legibleName told legibles ends ihName ih =>
    rcases ihName with ⟨nameText, shownName⟩
    rcases exists_mapM ih with ⟨texts, shownArguments⟩
    have wholes : ∀ part ∈ arguments, Whole part :=
      fun part member => Legible.whole (legibles part member)
    have lists := renderListWithin_splitTypes wholes
      (fun part member => (wholes part member).settles) (splitTypes_flatten legibles ends)
    have shows := shows_template mark legibleName.length_pos (settlesOf legibleName).steady told lists
    rw [shows.shownText_eq, shownName, shownArguments]
    exact ⟨_, rfl⟩
  | builtin mark =>
    rw [(shows_builtin mark).shownText_eq]
    exact ⟨_, rfl⟩
  | name mark =>
    rw [(shows_name mark).shownText_eq]
    exact ⟨_, rfl⟩

/-! ## What is rendered is covered -/

/-- What a rendering reads down to a depth. -/
structure Renders (depth : Nat) : Prop where
  one {bytes : List UInt8} {text : String} {length : Nat} :
    renderWithin depth bytes = .ok (text, length) → Begins Whole bytes length
  parameters {bytes : List UInt8} {texts : List String} {length : Nat} :
    renderParametersWithin depth bytes = .ok (texts, length) → Begins Parameters bytes length
  components {count : Nat} {bytes : List UInt8} {texts : List String} {length : Nat} :
    renderComponentsWithin depth count bytes = .ok (texts, length) →
    Begins (Components count) bytes length

theorem firstLength_eq_ok {length : Nat} (found : firstLength bytes = .ok length) :
    (bytes.head? >>= lengthOf?) = some length := by
  unfold firstLength at found
  split at found
  · next told => exact told.trans (congrArg some (Except.ok.inj found))
  · cases found

theorem length_pos_of_firstLength {length : Nat} (found : firstLength bytes = .ok length) :
    0 < bytes.length := by
  cases bytes with
  | nil => cases found
  | cons byte rest => exact Nat.succ_pos _

namespace Renders

variable {depth length : Nat}

theorem oneMore (renders : Renders depth) {text : String}
    (ran : renderWithin (depth + 1) bytes = .ok (text, length)) : Begins Whole bytes length := by
  cases bytes with
  | nil =>
    rw [renderWithin_nil] at ran
    cases ran
  | cons byte rest =>
    rw [renderWithin] at ran
    split at ran
    · next mark =>
      rcases Outcome.of_bind ran with ⟨target, ranTarget, same⟩
      cases same
      exact begins_modifier mark (renders.one ranTarget)
    · next mark =>
      split at ran
      · cases ran
      · next digits =>
        rcases Outcome.of_bind ran with ⟨element, ranElement, same⟩
        cases same
        exact begins_array mark digits (renders.one ranElement)
    · next mark =>
      rcases Outcome.of_bind ran with ⟨owner, ranOwner, ran⟩
      rcases Outcome.of_bind ran with ⟨member, ranMember, same⟩
      cases same
      exact begins_memberPointer mark (renders.one ranOwner) (renders.one ranMember)
    · next mark =>
      rcases Outcome.of_bind ran with ⟨parameters, ranParameters, ran⟩
      rcases Outcome.of_bind ran with ⟨result, ranResult, same⟩
      cases same
      exact begins_function mark (renders.parameters ranParameters) (renders.one ranResult)
    · next mark =>
      rcases Outcome.of_bind ran with ⟨count, told, ran⟩
      rcases Outcome.of_bind ran with ⟨components, ranComponents, same⟩
      cases same
      exact begins_qualified mark (firstLength_eq_ok told) (renders.components ranComponents)
    · next mark =>
      rcases Outcome.of_bind ran with ⟨name, ranName, ran⟩
      rcases Outcome.of_bind ran with ⟨packed, told, ran⟩
      dsimp only at ran
      split at ran
      · next inside =>
        rcases Outcome.of_bind ran with ⟨arguments, _, ran⟩
        rcases Outcome.of_bind ran with ⟨texts, _, same⟩
        cases same
        have lengthByte := length_pos_of_firstLength told
        rw [List.length_drop] at inside
        exact begins_template mark (renders.one ranName) (firstLength_eq_ok told) (by omega)
      · cases ran
    · next mark =>
      cases ran
      exact ⟨[byte], rest, rfl, rfl, .builtin mark⟩
    · next mark =>
      split at ran
      · next inside =>
        cases ran
        exact begins_name mark inside
      · cases ran
    · cases ran

theorem parametersMore (renders : Renders depth) {texts : List String}
    (ran : renderParametersWithin (depth + 1) bytes = .ok (texts, length)) :
    Begins Parameters bytes length := by
  cases bytes with
  | nil => cases ran
  | cons byte rest =>
    rw [renderParametersWithin] at ran
    split at ran
    · next ends =>
      cases ran
      exact ⟨[byte], rest, rfl, rfl, [], fun _ member => absurd member List.not_mem_nil,
        by rw [ends]; rfl⟩
    · rcases Outcome.of_bind ran with ⟨first, ranFirst, ran⟩
      rcases Outcome.of_bind ran with ⟨others, ranOthers, same⟩
      cases same
      exact begins_parameter (renders.one ranFirst) (renders.parameters ranOthers)

theorem componentsMore (renders : Renders depth) {count : Nat} {texts : List String}
    (ran : renderComponentsWithin (depth + 1) count bytes = .ok (texts, length)) :
    Begins (Components count) bytes length := by
  cases count with
  | zero =>
    rw [renderComponentsWithin] at ran
    cases ran
    exact begins_noComponents bytes
  | succ count =>
    rw [renderComponentsWithin] at ran
    rcases Outcome.of_bind ran with ⟨first, ranFirst, ran⟩
    rcases Outcome.of_bind ran with ⟨others, ranOthers, same⟩
    cases same
    exact begins_component (renders.one ranFirst) (renders.components ranOthers)

end Renders

theorem renders (depth : Nat) : Renders depth := by
  induction depth with
  | zero =>
    refine ⟨fun ran => (nomatch ran), fun ran => (nomatch ran), fun {count} _ _ _ ran => ?_⟩
    rw [renderComponentsWithin.eq_def] at ran
    cases count with
    | zero => cases ran; exact begins_noComponents _
    | succ count => cases ran
  | succ depth ih => exact ⟨ih.oneMore, ih.parametersMore, ih.componentsMore⟩

/-! ## Renderings and extents -/

/-- What is rendered at the front of bytes that begin with something spelled. -/
theorem render_append (whole : Whole bytes) (behind : List UInt8) :
    render (bytes ++ behind) = (shownText bytes).map fun text => (text, bytes.length) := by
  refine whole.settles.steady _ behind ?_
  unfold renderDepthFor
  rw [List.length_append]
  omega

/-- Where a whole encoding cannot be shown, it tells of more bytes than it has. -/
theorem shownText_eq_overrun (whole : Whole bytes) (notLegible : ¬ Legible bytes) :
    shownText bytes = .error .overrun := by
  cases outcome : shownText bytes with
  | ok text => exact absurd (whole.settles.legible outcome) notLegible
  | error flaw =>
    cases flaw with
    | malformed => exact absurd outcome whole.settles.fair
    | overrun => rfl

theorem exists_render_iff (bytes : List UInt8) (length : Nat) :
    (∃ text, render bytes = .ok (text, length)) ↔
      extent bytes = some length ∧ length ≤ bytes.length ∧ Legible (bytes.take length) := by
  constructor
  · rintro ⟨text, ran⟩
    rcases (renders _).one ran with ⟨front, behind, rfl, rfl, whole⟩
    rw [render_append whole] at ran
    rcases Outcome.of_map ran with ⟨_, shownFront, _⟩
    refine ⟨whole.extent_append behind, ?_, ?_⟩
    · rw [List.length_append]
      exact Nat.le_add_right _ _
    · rw [List.take_left]
      exact whole.settles.legible shownFront
  · rintro ⟨_, within, legible⟩
    rcases legible.exists_text with ⟨text, shownFront⟩
    have rendered := render_append (Legible.whole legible) (bytes.drop length)
    rw [List.take_append_drop, shownFront, List.length_take_of_le within] at rendered
    exact ⟨text, rendered⟩

theorem render_eq_overrun {length : Nat} (found : extent bytes = some length)
    (within : length ≤ bytes.length) (notLegible : ¬ Legible (bytes.take length)) :
    render bytes = .error .overrun := by
  rcases begins_of_extent found within with ⟨front, behind, rfl, rfl, whole⟩
  rw [List.take_left] at notLegible
  rw [render_append whole, shownText_eq_overrun whole notLegible]
  rfl

theorem readable_concat {encodings : List Encoding}
    (complete : ∀ encoding ∈ encodings, Complete encoding) :
    ∃ texts, List.Forall₂ (fun encoding text =>
        render encoding.bytes = .ok (text, encoding.bytes.length)) encodings texts ∧
      readable (concat encodings) = .ok (String.join texts) := by
  have legible : ∀ part ∈ encodings.map Encoding.bytes, Legible part :=
    spelled_bytes fun encoding member => legible_of_complete (complete encoding member)
  have whole : ∀ part ∈ encodings.map Encoding.bytes, Whole part :=
    fun part member => Legible.whole (legible part member)
  rcases exists_mapM fun part member => (legible part member).exists_text with ⟨texts, shownAll⟩
  refine ⟨texts, ?_, ?_⟩
  · have pairs := (List.forall₂_and_left _ _).mpr ⟨whole, mapM_eq_ok_iff.mp shownAll⟩
    refine (List.forall₂_map_left_iff.mp pairs).imp ?_
    rintro encoding text ⟨wholePart, shownPart⟩
    have rendered := render_append wholePart []
    rw [List.append_nil, shownPart] at rendered
    exact rendered
  · have all := renderAllWithin_flatten whole
      (fun part member => (whole part member).settles)
      (show (concat encodings).bytes.length ≤ 4 * (concat encodings).bytes.length + 3 by omega)
    rw [shownAll] at all
    exact all

/-- A rendering has an answer exactly where an extent lies within the bytes and covers something
legible, and it ends where the extent ends.  Everything else that an extent covers is an overrun.
Complete encodings one behind the other are shown as the texts of each, with no mark for what
cannot be read. -/
theorem render_of_extent (bytes : List UInt8) (length : Nat) (encodings : List Encoding) :
    ((∃ text, render bytes = .ok (text, length)) ↔
      extent bytes = some length ∧ length ≤ bytes.length ∧ Legible (bytes.take length)) ∧
    (extent bytes = some length → length ≤ bytes.length → ¬ Legible (bytes.take length) →
      render bytes = .error .overrun) ∧
    ((∀ encoding ∈ encodings, Complete encoding) → ∃ texts,
      List.Forall₂ (fun encoding text =>
        render encoding.bytes = .ok (text, encoding.bytes.length)) encodings texts ∧
      readable (concat encodings) = .ok (String.join texts)) := by
  refine ⟨exists_render_iff bytes length, ?_, ?_⟩
  · exact render_eq_overrun
  · exact readable_concat

/-- A template-id whose argument is one that packs five bytes and has none: the extent lies
within the bytes, and there is no rendering. -/
theorem render_of_extent_overrun :
    extent [0x54, 0x81, 0x61, 0x84, 0x54, 0x81, 0x62, 0x85] = some 8 ∧
    ¬ Legible [0x54, 0x81, 0x61, 0x84, 0x54, 0x81, 0x62, 0x85] ∧
    render [0x54, 0x81, 0x61, 0x84, 0x54, 0x81, 0x62, 0x85] = .error .overrun := by
  rcases render_of_extent [0x54, 0x81, 0x61, 0x84, 0x54, 0x81, 0x62, 0x85] 8 [] with
    ⟨shown, overruns, _⟩
  have covered : extent [0x54, 0x81, 0x61, 0x84, 0x54, 0x81, 0x62, 0x85] = some 8 := by
    decide +kernel
  have refused :
      (render [0x54, 0x81, 0x61, 0x84, 0x54, 0x81, 0x62, 0x85]).toOption.isNone = true := by
    decide +kernel
  have notLegible : ¬ Legible [0x54, 0x81, 0x61, 0x84, 0x54, 0x81, 0x62, 0x85] := by
    intro legible
    rcases shown.mpr ⟨covered, Nat.le_refl 8, legible⟩ with ⟨text, ran⟩
    rw [ran] at refused
    cases refused
  exact ⟨covered, notLegible, overruns covered (Nat.le_refl 8) notLegible⟩

end Encoding
end CppNames
