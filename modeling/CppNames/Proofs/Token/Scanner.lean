import CppNames.Proofs.Token.Piece
import CppNames.Token.Scanner
import Mathlib.Data.List.Chain

namespace CppNames

/-!
# Scanning and scanning again

What is known of the tokens of a text that is scanned without a report: each of them is read
again from its own text, and no `>` is followed directly by another one.  The second half goes
the other way.  `Rescans` says which kinds and texts are read from some characters, and its
rules put this together piece by piece.
-/

namespace Token

/-- What of a token is compared: its kind and its text, but not its position. -/
def shown (token : Token) : Kind × String := (token.kind, token.text)

/-- A token that is read again wherever its text stands apart. -/
structure WellRead (cxx : Bool) (token : Token) : Prop where
  settled : Settled cxx token.kind token.text.toList
  noEnd : token.kind ≠ .endOfFile
  greater : token.kind = .greater → token.text = ">"
  greaterGreater : token.kind = .greaterGreater → token.text = ">>"

/-- No `>` of the right token stands directly behind a `>` on the left. -/
def Parted (left right : Token) : Prop :=
  left.kind = .greater → right.kind = .greater ∨ right.kind = .greaterGreater →
    right.pos ≠ left.pos + 1

theorem wellRead_of_nextPiece {cxx lineStart : Bool} {c : Char} {rest : List Char} {kind : Kind}
    {count : Nat} (read : nextPiece cxx lineStart c rest = ⟨.token kind true, count⟩) (pos : Nat) :
    WellRead cxx ⟨kind, String.ofList (c :: rest.take count), pos⟩ := by
  have settled := settled_of_nextPiece read
  rw [← String.toList_ofList (l := c :: rest.take count)] at settled
  refine ⟨settled, noEnd_of_nextPiece read, fun same => ?_, fun same => ?_⟩
  · have isGreater : kind = .greater := same
    subst isGreater
    rcases greater_of_nextPiece read with ⟨rfl, rfl, _⟩
    rfl
  · have isShift : kind = .greaterGreater := same
    subst isShift
    change String.ofList (c :: rest.take count) = _
    rw [greaterGreater_of_nextPiece read]

end Token

namespace Scanner

open Token

/-! ## Scanning without reports -/

theorem scan_of_token {scanner next : Scanner} {c : Char} {rest : List Char} {token : Token}
    (more : scanner.rest = c :: rest) (read : scanner.readPiece c rest = (some token, next)) :
    scanner.scan = (token, next) := by
  unfold scan
  split
  · next none => rw [more] at none; cases none
  · next first behind front =>
    rw [more] at front
    cases front
    split
    · next other last found => rw [read] at found; cases found; rfl
    · next last found => rw [read] at found; cases found

theorem scan_of_gap {scanner next : Scanner} {c : Char} {rest : List Char}
    (more : scanner.rest = c :: rest) (read : scanner.readPiece c rest = (none, next)) :
    scanner.scan = next.scan := by
  conv => lhs; unfold scan
  split
  · next none => rw [more] at none; cases none
  · next first behind front =>
    rw [more] at front
    cases front
    split
    · next other last found => rw [read] at found; cases found
    · next last found => rw [read] at found; cases found; rfl

/-- Scanning adds to the log. -/
theorem log_readPiece (scanner : Scanner) (c : Char) (rest : List Char) :
    scanner.log <+: (scanner.readPiece c rest).2.log :=
  List.prefix_append _ _

theorem log_scan (scanner : Scanner) : scanner.log <+: scanner.scan.2.log := by
  fun_induction scan scanner with
  | case1 scanner read => exact List.prefix_rfl
  | case2 scanner c rest read token next step =>
    have added := log_readPiece scanner c rest
    rw [step] at added
    exact added
  | case3 scanner c rest read next step ih =>
    have added := log_readPiece scanner c rest
    rw [step] at added
    exact added.trans ih

/-- The position behind the text. -/
def stop (scanner : Scanner) : Nat := scanner.pos + byteLength scanner.rest

theorem byteLength_append (front back : List Char) :
    byteLength (front ++ back) = byteLength front + byteLength back := by
  induction front with
  | nil => exact (Nat.zero_add _).symm
  | cons c front ih =>
    rw [List.cons_append, byteLength, ih, byteLength, Nat.add_assoc]

/-- Passing over a piece leaves the end of the text where it is. -/
theorem stop_readPiece {scanner : Scanner} {c : Char} {rest : List Char}
    (more : scanner.rest = c :: rest) : (scanner.readPiece c rest).2.stop = scanner.stop := by
  simp only [stop, readPiece, more, byteLength]
  generalize (nextPiece scanner.cxx scanner.lineStart c rest).further = count
  have parts := byteLength_append (rest.take count) (rest.drop count)
  rw [List.take_append_drop] at parts
  omega

/-- What is known of a token that is scanned without a report. -/
structure ReadsOn (scanner : Scanner) (token : Token) (next : Scanner) : Prop where
  wellRead : token.WellRead scanner.cxx
  cxx : next.cxx = scanner.cxx
  behind : scanner.pos ≤ token.pos
  direct : token.pos = scanner.pos → token.text.toList.head? = scanner.rest.head?
  alone : token.kind = .greater → next.pos = token.pos + 1 ∧ next.rest.head? ≠ some '>'
  within : token.pos + byteLength token.text.toList ≤ scanner.stop
  stop : next.stop = scanner.stop

theorem readsOn_of_readPiece {scanner next : Scanner} {c : Char} {rest : List Char} {token : Token}
    (more : scanner.rest = c :: rest) (read : scanner.readPiece c rest = (some token, next))
    (quiet : next.log = scanner.log) : ReadsOn scanner token next := by
  have unmoved := stop_readPiece more
  rw [read] at unmoved
  unfold readPiece at read
  dsimp only at read
  cases found : nextPiece scanner.cxx scanner.lineStart c rest with
  | mk role count =>
    rw [found] at read
    cases role with
    | token kind closed =>
      injection read with same state
      injection same with same
      subst same
      subst state
      have unreported : problemOf? (.token kind closed) (String.ofList (c :: rest.take count)) = none := by
        simpa using quiet
      have isClosed : closed = true := by
        cases closed with
        | true => rfl
        | false => rcases unclosed_of_nextPiece found with rfl | rfl <;> cases unreported
      subst isClosed
      refine ⟨wellRead_of_nextPiece found _, rfl, Nat.le_refl _, fun _ => ?_, fun same => ?_, ?_,
        unmoved⟩
      · rw [more, String.toList_ofList]
        rfl
      · have isGreater : kind = .greater := same
        subst isGreater
        rcases greater_of_nextPiece found with ⟨rfl, rfl, other⟩
        exact ⟨rfl, other⟩
      · rw [String.toList_ofList, ← unmoved]
        exact Nat.le_add_right _ _
    | _ => cases read

theorem prefix_antisymm {α : Type} {left middle right : List α} (first : left <+: middle)
    (second : middle <+: right) (same : right = left) : middle = left := by
  subst same
  exact second.eq_of_length_le first.length_le

/-- A piece between tokens is not empty. -/
theorem pos_readPiece (scanner : Scanner) (c : Char) (rest : List Char) :
    scanner.pos < (scanner.readPiece c rest).2.pos := by
  have size := c.utf8Size_pos
  simp only [readPiece, byteLength]
  omega

theorem cxx_readPiece (scanner : Scanner) (c : Char) (rest : List Char) :
    (scanner.readPiece c rest).2.cxx = scanner.cxx := rfl

/-- What is scanned without a report is the end of the text or a token. -/
theorem scan_reads (scanner : Scanner) (quiet : scanner.scan.2.log = scanner.log) :
    (∃ pos, scanner.scan.1 = Token.endAt pos) ∨ ReadsOn scanner scanner.scan.1 scanner.scan.2 := by
  fun_induction scan scanner with
  | case1 scanner read => exact .inl ⟨_, rfl⟩
  | case2 scanner c rest read token next step =>
    exact .inr (readsOn_of_readPiece read step quiet)
  | case3 scanner c rest read next step ih =>
    have added := log_readPiece scanner c rest
    have later := pos_readPiece scanner c rest
    have language := cxx_readPiece scanner c rest
    have unmoved := stop_readPiece read
    rw [step] at added later language unmoved
    dsimp only at later
    have unchanged : next.log = scanner.log := prefix_antisymm added (log_scan next) quiet
    rcases ih (by rw [unchanged]; exact quiet) with ended | reads
    · exact .inl ended
    · refine .inr ⟨language ▸ reads.wellRead, reads.cxx.trans language,
        Nat.le_trans (Nat.le_of_lt later) reads.behind, fun same => ?_, reads.alone,
        unmoved ▸ reads.within, reads.stop.trans unmoved⟩
      have behind := reads.behind
      omega

/-- The tokens of a text that is scanned without a report, behind a place of the text. -/
structure WellScanned (scanner : Scanner) (tokens : List Token) : Prop where
  wellRead : ∀ token ∈ tokens, token.WellRead scanner.cxx
  parted : tokens.IsChain Parted
  first : ∀ token ∈ tokens.head?, token.pos = scanner.pos →
    token.text.toList.head? = scanner.rest.head?
  within : ∀ token ∈ tokens, token.pos + byteLength token.text.toList ≤ scanner.stop

theorem WellScanned.nil (scanner : Scanner) : WellScanned scanner [] where
  wellRead _ member := absurd member (List.not_mem_nil)
  parted := .nil
  first _ member := nomatch member
  within _ member := absurd member (List.not_mem_nil)

theorem WellScanned.cons {scanner next : Scanner} {token : Token} {tokens : List Token}
    (reads : ReadsOn scanner token next) (rest : WellScanned next tokens) :
    WellScanned scanner (token :: tokens) := by
  refine ⟨?_, ?_, ?_, ?_⟩
  · exact List.forall_mem_cons.mpr ⟨reads.wellRead, reads.cxx ▸ rest.wellRead⟩
  · refine List.isChain_cons.mpr ⟨?_, rest.parted⟩
    intro other member isGreater isClosing same
    rcases reads.alone isGreater with ⟨place, noOther⟩
    -- the two tokens would have been read as one
    have front := rest.first other member (same.trans place.symm)
    have closes : other.text.toList.head? = some '>' := by
      have read := rest.wellRead other (List.mem_of_mem_head? member)
      rcases isClosing with kind | kind
      · rw [read.greater kind]
        rfl
      · rw [read.greaterGreater kind]
        rfl
    exact noOther (front.symm.trans closes)
  · intro other member same
    cases Option.mem_some_iff.mp member
    exact reads.direct same
  · exact List.forall_mem_cons.mpr ⟨reads.within, reads.stop ▸ rest.within⟩

theorem log_scanAll (scanner : Scanner) : scanner.log <+: scanner.scanAll.2.log := by
  fun_induction scanAll scanner with
  | case1 scanner none => exact List.prefix_rfl
  | case2 scanner more _ read ended => exact log_scan scanner
  | case3 scanner more _ read goesOn behind ih => exact (log_scan scanner).trans ih

theorem scanAll_reads (scanner : Scanner) (quiet : scanner.scanAll.2.log = scanner.log) :
    ∃ tokens pos, scanner.scanAll.1 = tokens ++ [Token.endAt pos] ∧ WellScanned scanner tokens := by
  fun_induction scanAll scanner with
  | case1 scanner none => exact ⟨[], _, rfl, .nil scanner⟩
  | case2 scanner more _ read ended =>
    rcases scan_reads scanner quiet with ⟨pos, same⟩ | reads
    · exact ⟨[], pos, by rw [List.nil_append]; exact congrArg ([·]) same, .nil scanner⟩
    · exact absurd ended reads.wellRead.noEnd
  | case3 scanner more _ read goesOn behind ih =>
    have unchanged : scanner.scan.2.log = scanner.log :=
      prefix_antisymm (log_scan scanner) (log_scanAll scanner.scan.2) quiet
    rcases scan_reads scanner unchanged with ⟨pos, same⟩ | reads
    · exact absurd (by rw [show read = scanner.scan from rfl, same]; rfl) goesOn
    · rcases ih (quiet.trans unchanged.symm) with ⟨tokens, pos, same, rest⟩
      exact ⟨read.1 :: tokens, pos, by rw [List.cons_append]; exact congrArg (read.1 :: ·) same,
        .cons reads rest⟩

/-! ## Scanning written text -/

/-- From some characters, wherever they stand, the given kinds and texts are read and nothing
is reported. -/
def Rescans (cxx : Bool) (text : List Char) (found : List (Kind × String)) : Prop :=
  ∀ scanner : Scanner, scanner.cxx = cxx → scanner.rest = text →
    scanner.scanAll.1.map shown = found ++ [(.endOfFile, "")] ∧
      scanner.scanAll.2.log = scanner.log

theorem scanAll_of_more {scanner : Scanner} (more : scanner.rest ≠ []) :
    scanner.scanAll = if scanner.scan.1.kind = .endOfFile then ([scanner.scan.1], scanner.scan.2)
      else (scanner.scan.1 :: scanner.scan.2.scanAll.1, scanner.scan.2.scanAll.2) := by
  conv => lhs; unfold scanAll
  rw [dif_neg more]

theorem rescans_nil (cxx : Bool) : Rescans cxx [] [] := by
  intro scanner _ none
  unfold scanAll
  rw [dif_pos none]
  exact ⟨rfl, rfl⟩

/-- What lies in front of the first token makes no difference. -/
theorem scanAll_of_scan {scanner next : Scanner} (more : scanner.rest ≠ [])
    (same : scanner.scan = next.scan) : scanner.scanAll = next.scanAll := by
  rw [scanAll_of_more more, same]
  by_cases none : next.rest = []
  · have ended : next.scan = (Token.endAt next.pos, next) := by
      unfold scan
      split
      · rfl
      · next c rest front => rw [none] at front; cases front
    have all : next.scanAll = ([Token.endAt next.pos], next) := by
      unfold scanAll
      rw [dif_pos none]
    rw [ended, all]
    rfl
  · rw [scanAll_of_more none]

theorem rescans_blank {cxx : Bool} {text : List Char} {found : List (Kind × String)}
    (rest : Rescans cxx text found) : Rescans cxx (' ' :: text) found := by
  intro scanner language front
  have read : scanner.readPiece ' ' text = (none, (scanner.readPiece ' ' text).2) := rfl
  rw [scanAll_of_scan (by rw [front]; exact List.cons_ne_nil _ _) (scan_of_gap front read)]
  have readBehind := rest (scanner.readPiece ' ' text).2 language rfl
  exact ⟨readBehind.1, readBehind.2.trans (List.append_nil _)⟩

/-- A token that is not cut off is nothing to report. -/
theorem problemOf?_closed (kind : Kind) (text : String) :
    problemOf? (.token kind true) text = none := by
  cases kind <;> rfl

theorem rescans_token {cxx : Bool} {c : Char} {text : List Char} {kind : Kind} {count : Nat}
    {found : List (Kind × String)} (noEnd : kind ≠ .endOfFile)
    (reads : ∀ lineStart, nextPiece cxx lineStart c text = ⟨.token kind true, count⟩)
    (rest : Rescans cxx (text.drop count) found) :
    Rescans cxx (c :: text) ((kind, String.ofList (c :: text.take count)) :: found) := by
  intro scanner language front
  have piece : nextPiece scanner.cxx scanner.lineStart c text = ⟨.token kind true, count⟩ := by
    rw [language]
    exact reads _
  have token : (scanner.readPiece c text).1 =
      some ⟨kind, String.ofList (c :: text.take count), scanner.pos⟩ := by
    unfold readPiece
    dsimp only
    rw [piece]
  have behind : (scanner.readPiece c text).2.rest = text.drop count := by
    unfold readPiece
    dsimp only
    rw [piece]
  have quiet : (scanner.readPiece c text).2.log = scanner.log := by
    have unreported : problemOf? (.token kind true) (String.ofList (c :: text.take count)) = none :=
      problemOf?_closed kind _
    unfold readPiece
    dsimp only
    rw [piece, unreported]
    exact List.append_nil _
  have scanned := scan_of_token front (Prod.ext token rfl)
  rw [scanAll_of_more (by rw [front]; exact List.cons_ne_nil _ _), scanned, if_neg noEnd]
  rcases rest (scanner.readPiece c text).2 language behind with ⟨readBehind, quietBehind⟩
  refine ⟨?_, quietBehind.trans quiet⟩
  rw [List.map_cons, readBehind]
  rfl

end Scanner
end CppNames
