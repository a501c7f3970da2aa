import CppNames.Proofs.Token.Form
import CppNames.Proofs.Token.Scanner
import CppNames.Token.Stream
import Mathlib.Data.String.Basic

namespace CppNames

/-!
# A text is the sum of its pieces

Every text, well formed or not, falls into pieces that stand one directly behind the other from
its front to its end.  The tokens handed out are the pieces with the role of a token, in order,
and then the end token for ever; every other character belongs to a piece whose form tells why
it was passed over.  `Tiling` gathers this, and `tiling_scan` proves it of every text.

A directive needs a line that is blank so far.  What counts as blank there is a parameter of
the statement, since a splice does, although it is neither whitespace nor a comment:
`not_tiling_spliced` is a text whose directive stands behind one.
-/

namespace Token

/-! ## Pieces at their places -/

/-- A piece of a text: its role, where it begins, and its characters. -/
structure Piece where
  role : Role
  pos : Nat
  text : List Char

namespace Piece

/-- The token that the piece is, if it is one. -/
def token? (piece : Piece) : Option Token :=
  match piece.role with
  | .token kind _ => some ⟨kind, String.ofList piece.text, piece.pos⟩
  | _ => none

/-- The range of the text that the piece covers. -/
def span (piece : Piece) : Span := ⟨piece.pos, byteLength piece.text⟩

/-- A report on the piece. -/
def reportOf (file : String) (piece : Piece) (problem : Message × List String) : Diagnostic :=
  Diagnostic.inFile file piece.span problem.1 problem.2

/-- The report on the piece, if it is not well formed. -/
def report? (file : String) (piece : Piece) : Option Diagnostic :=
  (Scanner.problemOf? piece.role (String.ofList piece.text)).map (piece.reportOf file)

end Piece

/-- The characters of some pieces, one behind the other. -/
def textOf (pieces : List Piece) : List Char := pieces.flatMap (·.text)

/-- Whether a piece is whitespace or a comment. -/
def Role.isSpace : Role → Bool
  | .newline | .blank | .lineComment | .blockComment _ => true
  | .directive | .splice | .invalid | .token _ _ => false

/-- Whether a piece is whitespace, a comment or a splice. -/
def Role.isTrivia (role : Role) : Bool := role.isSpace || role == .splice

/-- The characters of the line at the end of a text. -/
def lineBefore (text : List Char) : List Char := text.rtakeWhile (· != '\n')

/-- The line at the end of some pieces lies in pieces of given roles. -/
def Opens (leads : Role → Bool) (before : List Piece) : Prop :=
  ∃ recent, recent <:+ before ∧ (∀ piece ∈ recent, leads piece.role = true) ∧
    lineBefore (textOf before) <:+ textOf recent

/-- A piece lies between the pieces before it and the text behind it.  The roles are those that
may stand in front of a directive on its line. -/
structure Lies (leads : Role → Bool) (before : List Piece) (piece : Piece) (behind : List Char) :
    Prop where
  pos : piece.pos = byteLength (textOf before)
  formed : Formed piece.role piece.text behind
  opens : piece.role = .directive → Opens leads before

/-- Every piece lies where the pieces before it end. -/
def Tiles (leads : Role → Bool) : (before pieces : List Piece) → Prop
  | _, [] => True
  | before, piece :: rest =>
    Lies leads before piece (textOf rest) ∧ Tiles leads (before ++ [piece]) rest

/-- Tokens that lie in a source text in order, apart from each other, each of them the slice of
the text that its place tells. -/
structure Laid (source : String) (tokens : List Token) : Prop where
  nonempty : ∀ token ∈ tokens, token.text ≠ ""
  noEnd : ∀ token ∈ tokens, token.kind ≠ .endOfFile
  shifts : ∀ token ∈ tokens, token.kind = .greaterGreater → token.text = ">>"
  ordered : tokens.Pairwise fun left right => left.pos < right.pos ∧ left.span.stop ≤ right.pos
  starts : ∀ token ∈ tokens, String.Pos.Raw.IsValid source ⟨token.pos⟩
  stops : ∀ token ∈ tokens, String.Pos.Raw.IsValid source ⟨token.span.stop⟩
  slices : ∀ token ∈ tokens, String.Pos.Raw.extract source ⟨token.pos⟩ ⟨token.span.stop⟩ = token.text

/-- The pieces make up the text.  The tokens among them are those of the text, also when they
are asked for one by one, and each invalid character among them is reported once. -/
structure Tiling (leads : Role → Bool) (file : String) (cxx : Bool) (source : String)
    (pieces : List Piece) : Prop where
  whole : textOf pieces = source.toList
  tiles : Tiles leads [] pieces
  laid : Laid source (pieces.filterMap Piece.token?)
  tokens : (tokenize file cxx source).1 =
    pieces.filterMap Piece.token? ++ [Token.endAt source.utf8ByteSize]
  handedOut : ∀ count, (TokenStream.fill count (.ofText file cxx source)).queue =
    (pieces.filterMap Piece.token? ++
      List.replicate count (Token.endAt source.utf8ByteSize)).take count
  reported : ∀ piece ∈ pieces, piece.role = .invalid →
    (tokenize file cxx source).2.countP
      (fun problem => problem.isOf .invalidCharacter && problem.span == some piece.span) = 1

/-! ## Lines -/

theorem textOf_concat (before : List Piece) (piece : Piece) :
    textOf (before ++ [piece]) = textOf before ++ piece.text := by
  simp [textOf]

theorem lineBefore_append (front back : List Char) :
    lineBefore (front ++ back) <:+ lineBefore front ++ back := by
  unfold lineBefore List.rtakeWhile
  rw [List.reverse_append, List.takeWhile_append]
  split
  · simp only [List.reverse_append, List.reverse_reverse, List.suffix_rfl]
  · exact (List.rtakeWhile_suffix _ back).trans (List.suffix_append _ _)

theorem lineBefore_of_mem (front : List Char) {back : List Char} (member : '\n' ∈ back) :
    lineBefore (front ++ back) <:+ back := by
  unfold lineBefore List.rtakeWhile
  rw [List.reverse_append, List.takeWhile_append]
  split
  · next all =>
    have same := (List.takeWhile_prefix (· != '\n')).eq_of_length all
    have inFront : '\n' ∈ back.reverse.takeWhile (· != '\n') := by
      rw [same]
      exact List.mem_reverse.mpr member
    exact absurd (List.mem_takeWhile_imp inFront) (by decide)
  · exact List.rtakeWhile_suffix _ back

theorem lineBefore_newline (front : List Char) : lineBefore (front ++ ['\n']) = [] := by
  simp [lineBefore]

theorem Opens.nil (leads : Role → Bool) : Opens leads [] :=
  ⟨[], List.suffix_rfl, fun _ member => absurd member List.not_mem_nil, List.suffix_rfl⟩

section Leads

variable {leads : Role → Bool} {before : List Piece} {piece : Piece}

theorem Opens.append (opens : Opens leads before) (leading : leads piece.role = true) :
    Opens leads (before ++ [piece]) := by
  rcases opens with ⟨recent, last, all, covers⟩
  refine ⟨recent ++ [piece], ?_, ?_, ?_⟩
  · rcases last with ⟨front, rfl⟩
    exact ⟨front, (List.append_assoc front recent [piece]).symm⟩
  · rintro other member
    rcases List.mem_append.mp member with member | member
    · exact all other member
    · rw [List.mem_singleton.mp member]
      exact leading
  · rw [textOf_concat, textOf_concat]
    rcases covers with ⟨front, same⟩
    refine (lineBefore_append _ _).trans ⟨front, ?_⟩
    rw [← same, List.append_assoc]

theorem Opens.behindComment (leading : leads piece.role = true) (broken : '\n' ∈ piece.text) :
    Opens leads (before ++ [piece]) := by
  refine ⟨[piece], List.suffix_append _ _, ?_, ?_⟩
  · intro other member
    rw [List.mem_singleton.mp member]
    exact leading
  · rw [textOf_concat]
    simpa [textOf] using lineBefore_of_mem (textOf before) broken

theorem Opens.behindNewline {front : List Char} (ends : piece.text = front ++ ['\n']) :
    Opens leads (before ++ [piece]) := by
  refine ⟨[], List.nil_suffix, fun _ member => absurd member List.not_mem_nil, ?_⟩
  rw [textOf_concat, ends, ← List.append_assoc, lineBefore_newline]
  exact List.nil_suffix

end Leads

/-- A directive is read only while the line is blank. -/
theorem lineStart_of_directive {cxx lineStart : Bool} {c : Char} {rest : List Char} {count : Nat}
    (read : nextPiece cxx lineStart c rest = ⟨.directive, count⟩) : lineStart = true := by
  unfold nextPiece at read
  split at read
  · cases read
  · split at read
    · cases read
    · split at read
      · cases read
      · cases read
      · split at read
        · assumption
        · cases read
      · split at read
        · cases read
        · cases read
      · rcases role_of_nextToken read with ⟨kind, closed, role⟩ | ⟨role, -, -⟩
        · cases role
        · cases role

/-- While a line is blank so far, nothing but trivia stands on it. -/
theorem opens_lineStartAfter {before : List Piece} {piece : Piece} {behind : List Char}
    {lineStart : Bool} (formed : Formed piece.role piece.text behind)
    (opens : lineStart = true → Opens Role.isTrivia before) (more : behind ≠ [])
    (blank : lineStartAfter lineStart piece.role piece.text = true) :
    Opens Role.isTrivia (before ++ [piece]) := by
  rcases piece with ⟨role, pos, text⟩
  dsimp only at formed blank
  cases formed with
  | newline => exact .behindNewline (List.nil_append ['\n']).symm
  | blank => exact (opens blank).append rfl
  | lineComment => exact (opens blank).append rfl
  | closedComment =>
    rcases Bool.or_eq_true_iff.mp blank with still | broken
    · exact (opens still).append rfl
    · exact .behindComment rfl (List.contains_iff_mem.mp (Bool.and_eq_true_iff.mp broken).2)
  | openComment => exact absurd rfl more
  | directive line =>
    rcases line.ended with none | ⟨front, ends, -⟩
    · exact absurd none more
    · exact .behindNewline ends
  | splice => exact (opens blank).append rfl
  | invalid => cases blank
  | token => cases blank

/-! ## Bytes -/

theorem byteLength_eq_utf8ByteSize (text : List Char) :
    byteLength text = (String.ofList text).utf8ByteSize := by
  induction text with
  | nil => rfl
  | cons c rest ih =>
    rw [String.ofList_cons, String.utf8ByteSize_append, String.utf8ByteSize_singleton, ← ih, byteLength]

theorem byteLength_eq_utf8Len (text : List Char) : byteLength text = String.utf8Len text := by
  rw [byteLength_eq_utf8ByteSize, String.utf8ByteSize_ofList]

/-- The place behind the front of a text is a place between characters. -/
theorem isValid_byteLength (front back : List Char) :
    String.Pos.Raw.IsValid (String.ofList (front ++ back)) ⟨byteLength front⟩ := by
  refine String.Pos.Raw.isValid_iff_exists_append.mpr
    ⟨String.ofList front, String.ofList back, String.ofList_append, ?_⟩
  rw [String.rawEndPos_ofList, byteLength_eq_utf8Len]

/-! ## Tokens of a tiling -/

section Tiles

variable {leads : Role → Bool} {before pieces : List Piece}

theorem Tiles.le_pos (tiles : Tiles leads before pieces) :
    ∀ piece ∈ pieces, byteLength (textOf before) ≤ piece.pos := by
  induction pieces generalizing before with
  | nil => exact fun _ member => absurd member List.not_mem_nil
  | cons first rest ih =>
    refine List.forall_mem_cons.mpr ⟨Nat.le_of_eq tiles.1.pos.symm, fun piece member => ?_⟩
    have later := ih tiles.2 piece member
    rw [textOf_concat, Scanner.byteLength_append] at later
    omega

theorem Lies.nonempty {piece : Piece} {behind : List Char}
    (lies : Lies leads before piece behind) : 0 < byteLength piece.text := by
  have size : ∀ (c : Char) (rest : List Char), 0 < byteLength (c :: rest) := fun c rest =>
    Nat.add_pos_left c.utf8Size_pos _
  rcases piece with ⟨role, pos, text⟩
  cases lies.formed with
  | _ => exact size _ _

theorem Tiles.ordered (tiles : Tiles leads before pieces) :
    pieces.Pairwise fun left right => left.pos < right.pos ∧ left.span.stop ≤ right.pos := by
  induction pieces generalizing before with
  | nil => exact .nil
  | cons first rest ih =>
    refine .cons (fun piece member => ?_) (ih tiles.2)
    have later := tiles.2.le_pos piece member
    have place := tiles.1.pos
    have size := tiles.1.nonempty
    rw [textOf_concat, Scanner.byteLength_append] at later
    change first.pos < piece.pos ∧ first.pos + byteLength first.text ≤ piece.pos
    omega

/-- A piece is what the text has at its place. -/
theorem Tiles.slice (tiles : Tiles leads before pieces) {piece : Piece} (member : piece ∈ pieces) :
    ∃ front back, textOf before ++ textOf pieces = front ++ piece.text ++ back ∧
      piece.pos = byteLength front ∧ ∃ others behind, Lies leads others piece behind := by
  induction pieces generalizing before with
  | nil => exact absurd member List.not_mem_nil
  | cons first rest ih =>
    have parts : textOf (first :: rest) = first.text ++ textOf rest := List.flatMap_cons
    rcases List.mem_cons.mp member with rfl | member
    · exact ⟨textOf before, textOf rest, by rw [parts, List.append_assoc], tiles.1.pos, _, _, tiles.1⟩
    · rcases ih tiles.2 member with ⟨front, back, same, rest⟩
      refine ⟨front, back, ?_, rest⟩
      rw [← same, textOf_concat, parts, List.append_assoc]

theorem Formed.isToken {kind : Kind} {closed : Bool} {text behind : List Char}
    (formed : Formed (.token kind closed) text behind) :
    kind ≠ .endOfFile ∧ (kind = .greaterGreater → text = ['>', '>']) := by
  cases formed with
  | token noEnd shift => exact ⟨noEnd, shift⟩

theorem token?_eq_some {piece : Piece} {token : Token} (same : piece.token? = some token) :
    ∃ closed, piece.role = .token token.kind closed ∧ token.text = String.ofList piece.text ∧
      token.pos = piece.pos ∧ token.span = piece.span := by
  unfold Piece.token? at same
  split at same
  · next kind closed role =>
    cases same
    exact ⟨closed, role, rfl, rfl, by
      rw [Token.span, Piece.span, byteLength_eq_utf8ByteSize]⟩
  · cases same

theorem Tiles.laid {source : String} (tiles : Tiles leads [] pieces)
    (whole : textOf pieces = source.toList) : Laid source (pieces.filterMap Piece.token?) := by
  have comes : ∀ token ∈ pieces.filterMap Piece.token?, ∃ front back,
      source = String.ofList (front ++ token.text.toList ++ back) ∧ token.text ≠ "" ∧
      (token.kind ≠ .endOfFile ∧ (token.kind = .greaterGreater → token.text = ">>")) ∧
      token.pos = byteLength front ∧
      token.span.stop = byteLength (front ++ token.text.toList) := by
    intro token member
    rcases List.mem_filterMap.mp member with ⟨piece, isPiece, same⟩
    rcases token?_eq_some same with ⟨closed, role, text, pos, span⟩
    rcases tiles.slice isPiece with ⟨front, back, split, place, others, behind, lies⟩
    have chars : token.text.toList = piece.text := by rw [text, String.toList_ofList]
    have size := lies.nonempty
    have formed := lies.formed
    refine ⟨front, back, ?_, ?_, ?_, pos.trans place, ?_⟩
    · rw [chars, ← split, show textOf [] = [] from rfl, List.nil_append, whole, String.ofList_toList]
    · intro none
      rw [← chars, none] at size
      exact absurd size (by decide)
    · rw [role] at formed
      rcases formed.isToken with ⟨noEnd, shift⟩
      refine ⟨noEnd, fun isShift => ?_⟩
      rw [text, shift isShift]
    · rw [span, Scanner.byteLength_append, chars, ← place]
      rfl
  refine ⟨fun token member => ?_, fun token member => ?_, fun token member => ?_, ?_,
    fun token member => ?_, fun token member => ?_, fun token member => ?_⟩
  · rcases comes token member with ⟨front, back, _, nonempty, _⟩
    exact nonempty
  · rcases comes token member with ⟨front, back, _, _, ⟨noEnd, _⟩, _⟩
    exact noEnd
  · rcases comes token member with ⟨front, back, _, _, ⟨_, shift⟩, _⟩
    exact shift
  · refine List.Pairwise.filterMap _ (fun left right apart first isFirst second isSecond => ?_)
      tiles.ordered
    rcases token?_eq_some isFirst with ⟨_, _, _, pos, span⟩
    rcases token?_eq_some isSecond with ⟨_, _, _, posSecond, _⟩
    rw [pos, posSecond, span]
    exact apart
  · rcases comes token member with ⟨front, back, rfl, _, _, pos, _⟩
    rw [pos, List.append_assoc]
    exact isValid_byteLength front _
  · rcases comes token member with ⟨front, back, rfl, _, _, _, stop⟩
    rw [stop]
    exact isValid_byteLength _ back
  · rcases comes token member with ⟨front, back, rfl, _, _, pos, stop⟩
    have slice := String.extract_of_valid front token.text.toList back
    rw [pos, stop, Scanner.byteLength_append, byteLength_eq_utf8Len, byteLength_eq_utf8Len, slice,
      String.ofList_toList]

end Tiles

end Token

namespace Scanner

open Token

/-! ## The pieces in front of a scanner -/

/-- The piece that a scanner reads. -/
def piece (scanner : Scanner) (c : Char) (rest : List Char) : Piece :=
  let found := nextPiece scanner.cxx scanner.lineStart c rest
  ⟨found.role, scanner.pos, c :: rest.take found.further⟩

/-- The pieces of the text in front of a scanner. -/
def pieces (scanner : Scanner) : List Piece :=
  match _read : scanner.rest with
  | [] => []
  | c :: rest => scanner.piece c rest :: (scanner.readPiece c rest).2.pieces
  termination_by scanner.rest.length
  decreasing_by simpa [_read] using length_rest_readPiece scanner c rest

/-- The tokens in front of a scanner. -/
def ahead (scanner : Scanner) : List Token := scanner.pieces.filterMap Piece.token?

/-- All that is reported once the text in front of a scanner is read. -/
def reports (scanner : Scanner) : Log :=
  scanner.log ++ scanner.pieces.filterMap (Piece.report? scanner.file)

variable {scanner : Scanner} {c : Char} {rest : List Char}

theorem pieces_nil (none : scanner.rest = []) : scanner.pieces = [] := by
  unfold pieces
  split
  · rfl
  · next more => rw [none] at more; cases more

theorem pieces_cons (more : scanner.rest = c :: rest) :
    scanner.pieces = scanner.piece c rest :: (scanner.readPiece c rest).2.pieces := by
  conv => lhs; unfold pieces
  split
  · next none => rw [more] at none; cases none
  · next first behind front => rw [more] at front; cases front; rfl

theorem token?_piece : (scanner.piece c rest).token? = (scanner.readPiece c rest).1 := rfl

theorem log_readPiece_eq : (scanner.readPiece c rest).2.log =
    scanner.log ++ ((scanner.piece c rest).report? scanner.file).toList := by
  have place : Span.ofBounds scanner.pos (scanner.pos + byteLength (scanner.piece c rest).text) =
      (scanner.piece c rest).span := by
    unfold Span.ofBounds
    rw [Nat.add_sub_cancel_left]
    rfl
  refine congrArg (scanner.log ++ Option.toList ·) ?_
  unfold Piece.report?
  cases found : problemOf? (scanner.piece c rest).role
      (String.ofList (scanner.piece c rest).text) with
  | none => exact congrArg (Option.map _) found
  | some problem =>
    refine (congrArg (Option.map _) found).trans ?_
    rcases problem with ⟨message, arguments⟩
    exact congrArg (fun span => some (Diagnostic.inFile scanner.file span message arguments)) place

theorem ahead_nil (none : scanner.rest = []) : scanner.ahead = [] := by
  rw [ahead, pieces_nil none, List.filterMap_nil]

theorem ahead_cons (more : scanner.rest = c :: rest) :
    scanner.ahead = (scanner.readPiece c rest).1.toList ++ (scanner.readPiece c rest).2.ahead := by
  rw [ahead, pieces_cons more, List.filterMap_cons, token?_piece]
  cases (scanner.readPiece c rest).1 with
  | none => rfl
  | some token => rfl

theorem reports_cons (more : scanner.rest = c :: rest) :
    (scanner.readPiece c rest).2.reports = scanner.reports := by
  unfold reports
  rw [log_readPiece_eq, pieces_cons more, List.filterMap_cons, List.append_assoc]
  refine congrArg (scanner.log ++ ·) ?_
  change _ ++ List.filterMap (Piece.report? scanner.file) _ = _
  cases (scanner.piece c rest).report? scanner.file with
  | none => rfl
  | some problem => rfl

/-! ## Handing out tokens -/

/-- What is known of a scanner behind its next token. -/
structure Next (scanner : Scanner) (token : Token) (next : Scanner) : Prop where
  token : token = scanner.ahead.headD (Token.endAt scanner.stop)
  ahead : next.ahead = scanner.ahead.tail
  stop : next.stop = scanner.stop
  reports : next.reports = scanner.reports
  ended : scanner.ahead = [] → next.rest = []

/-- The next token is the first one ahead; behind the last one it is the end token. -/
theorem next_scan (scanner : Scanner) : Next scanner scanner.scan.1 scanner.scan.2 := by
  fun_induction scan scanner with
  | case1 scanner none =>
    have empty := ahead_nil none
    refine ⟨?_, by rw [empty]; rfl, rfl, rfl, fun _ => none⟩
    rw [empty, stop, none]
    rfl
  | case2 scanner c rest more token next read =>
    have front := ahead_cons more
    have stays := stop_readPiece more
    have reported := reports_cons more
    rw [read] at front stays reported
    refine ⟨by rw [front]; rfl, by rw [front]; rfl, stays, reported, fun none => ?_⟩
    rw [front] at none
    cases none
  | case3 scanner c rest more next read ih =>
    have front := ahead_cons more
    have stays := stop_readPiece more
    have reported := reports_cons more
    rw [read] at front stays reported
    have same : scanner.ahead = next.ahead := front
    exact ⟨by rw [same, ← stays]; exact ih.token, by rw [same]; exact ih.ahead,
      ih.stop.trans stays, ih.reports.trans reported, fun none => ih.ended (same ▸ none)⟩

/-- Asking for tokens one by one gives those ahead and then the end token for ever. -/
theorem queue_fill (count : Nat) (stream : TokenStream) :
    (TokenStream.fill count stream).queue = stream.queue ++
      (stream.scanner.ahead ++ List.replicate count (Token.endAt stream.scanner.stop)).take count := by
  induction count generalizing stream with
  | zero => exact (List.append_nil _).symm
  | succ count ih =>
    have next := next_scan stream.scanner
    have step : (TokenStream.fill (count + 1) stream).queue =
        (TokenStream.fill count ⟨stream.scanner.scan.2,
          stream.queue ++ [stream.scanner.scan.1]⟩).queue := rfl
    rw [step, ih, List.append_assoc, next.ahead, next.stop, next.token]
    refine congrArg (stream.queue ++ ·) ?_
    cases stream.scanner.ahead with
    | nil => rfl
    | cons first tokens =>
      change first :: (tokens ++ _).take count = first :: (tokens ++ _).take count
      refine congrArg (first :: ·) ?_
      have enough : count ≤ (tokens ++ List.replicate count (Token.endAt stream.scanner.stop)).length := by
        rw [List.length_append, List.length_replicate]
        omega
      rw [List.replicate_succ', ← List.append_assoc, List.take_append_of_le_length enough]

/-- All tokens of a text at once are those ahead and the end token. -/
theorem scanAll_eq (scanner : Scanner) (noEnd : ∀ token ∈ scanner.ahead, token.kind ≠ .endOfFile) :
    scanner.scanAll.1 = scanner.ahead ++ [Token.endAt scanner.stop] ∧
      scanner.scanAll.2.log = scanner.reports := by
  have finished : ∀ scanner : Scanner, scanner.rest = [] → scanner.log = scanner.reports := by
    intro scanner none
    rw [reports, pieces_nil none]
    exact (List.append_nil _).symm
  fun_induction scanAll scanner with
  | case1 scanner none =>
    refine ⟨?_, finished scanner none⟩
    rw [ahead_nil none, stop, none]
    rfl
  | case2 scanner more _ read ended =>
    have next := next_scan scanner
    cases front : scanner.ahead with
    | nil =>
      refine ⟨?_, (finished _ (next.ended front)).trans next.reports⟩
      have token := next.token
      rw [front] at token
      exact congrArg ([·]) token
    | cons first tokens =>
      have token : scanner.scan.1 = first := by rw [next.token, front, List.headD_cons]
      exact absurd (token ▸ ended) (noEnd first (by rw [front]; exact List.mem_cons_self ..))
  | case3 scanner more _ read goesOn behind ih =>
    have next := next_scan scanner
    cases front : scanner.ahead with
    | nil =>
      have token := next.token
      rw [front] at token
      exact absurd (by rw [show read.1 = _ from token]; rfl) goesOn
    | cons first tokens =>
      have token : scanner.scan.1 = first := by rw [next.token, front, List.headD_cons]
      have later : scanner.scan.2.ahead = tokens := by rw [next.ahead, front, List.tail_cons]
      have known := ih fun other member => noEnd other (by
        rw [front]
        exact List.mem_cons_of_mem _ (later ▸ member))
      rw [later, next.stop, next.reports] at known
      exact ⟨by rw [known.1, show read.1 = first from token, List.cons_append], known.2⟩

/-! ## Every text is tiled -/

theorem textOf_pieces (scanner : Scanner) : textOf scanner.pieces = scanner.rest := by
  fun_induction pieces scanner with
  | case1 scanner none => exact none.symm
  | case2 scanner c rest more ih =>
    rw [textOf, List.flatMap_cons, ← textOf, ih, more]
    exact congrArg (c :: ·) (List.take_append_drop _ rest)

/-- The pieces in front of a scanner lie behind those that it has passed. -/
theorem tiles_pieces (scanner : Scanner) (before : List Piece)
    (pos : scanner.pos = byteLength (textOf before))
    (opens : scanner.rest ≠ [] → scanner.lineStart = true → Opens Role.isTrivia before) :
    Tiles Role.isTrivia before scanner.pieces := by
  fun_induction pieces scanner generalizing before with
  | case1 scanner none => trivial
  | case2 scanner c rest more ih =>
    have there : scanner.rest ≠ [] := by rw [more]; exact List.cons_ne_nil _ _
    have formed : Formed (scanner.piece c rest).role (scanner.piece c rest).text
        (scanner.readPiece c rest).2.rest := formed_of_nextPiece rfl
    refine ⟨⟨pos, by rw [textOf_pieces]; exact formed, fun isDirective => opens there ?_⟩,
      ih _ ?_ fun more blank => ?_⟩
    · have isDirective : (nextPiece scanner.cxx scanner.lineStart c rest).role = .directive :=
        isDirective
      exact lineStart_of_directive (by rw [← isDirective])
    · rw [textOf_concat, byteLength_append, ← pos]
      rfl
    · exact opens_lineStartAfter formed (opens there) more blank

end Scanner

namespace Token

/-! ## Reports on invalid characters -/

/-- The report on an invalid character, and on no other piece, is one on an invalid
character. -/
theorem report?_invalid (file : String) (piece : Piece) (place : Option Span) :
    ((piece.report? file).map
      fun problem => problem.isOf .invalidCharacter && problem.span == place).getD false =
        (piece.role == .invalid && some piece.span == place) := by
  unfold Piece.report? Scanner.problemOf?
  split
  · next role => rw [role]; rfl
  · next role => rw [role]; rfl
  · next role => rw [role]; rfl
  · next role => rw [role]; rfl
  · next _ other _ _ =>
    have isOther : (piece.role == .invalid) = false := beq_eq_false_iff_ne.mpr other
    rw [isOther]
    rfl

/-- Exactly one member of an ordered list passes a test that tells its place. -/
theorem countP_eq_one {α : Type} {members : List α} {test : α → Bool} {place : α → Nat} {one : α}
    (ordered : members.Pairwise fun left right => place left < place right) (member : one ∈ members)
    (passes : test one = true) (only : ∀ other, test other = true → place other = place one) :
    members.countP test = 1 := by
  rcases List.append_of_mem member with ⟨front, back, rfl⟩
  rcases List.pairwise_append.mp ordered with ⟨-, behind, across⟩
  have noneBefore : front.countP test = 0 := by
    refine List.countP_eq_zero.mpr fun other inFront same => ?_
    have before := across other inFront one (List.mem_cons_self ..)
    have equal := only other same
    omega
  have noneBehind : back.countP test = 0 := by
    refine List.countP_eq_zero.mpr fun other inBack same => ?_
    have before := (List.pairwise_cons.mp behind).1 other inBack
    have equal := only other same
    omega
  rw [List.countP_append, List.countP_cons, noneBefore, noneBehind, if_pos passes]

theorem Tiles.reportedOnce {leads : Role → Bool} {before pieces : List Piece} (file : String)
    (tiles : Tiles leads before pieces) {piece : Piece} (member : piece ∈ pieces)
    (invalid : piece.role = .invalid) :
    (pieces.filterMap (Piece.report? file)).countP
      (fun problem => problem.isOf .invalidCharacter && problem.span == some piece.span) = 1 := by
  rw [List.countP_filterMap]
  refine countP_eq_one (tiles.ordered.imp And.left) member ?_ fun other same => ?_
  · rw [report?_invalid, invalid]
    simp
  · rw [report?_invalid] at same
    have equal : other.span = piece.span := by simpa using (Bool.and_eq_true_iff.mp same).2
    exact congrArg Span.start equal

/-! ## The whole text -/

section Text

variable (file : String) (cxx : Bool) (source : String)

theorem tiles_ofText : Tiles Role.isTrivia [] (Scanner.ofText file cxx source).pieces :=
  Scanner.tiles_pieces _ [] rfl fun _ _ => .nil _

theorem textOf_ofText : textOf (Scanner.ofText file cxx source).pieces = source.toList :=
  Scanner.textOf_pieces _

theorem laid_ofText : Laid source (Scanner.ofText file cxx source).ahead :=
  (tiles_ofText file cxx source).laid (textOf_ofText file cxx source)

theorem stop_ofText : (Scanner.ofText file cxx source).stop = source.utf8ByteSize := by
  rw [Scanner.stop, byteLength_eq_utf8ByteSize]
  exact (Nat.zero_add _).trans (congrArg String.utf8ByteSize String.ofList_toList)

theorem tokenize_eq : (tokenize file cxx source).1 =
    (Scanner.ofText file cxx source).ahead ++ [Token.endAt source.utf8ByteSize] := by
  rw [← stop_ofText file cxx source]
  exact (Scanner.scanAll_eq _ (laid_ofText file cxx source).noEnd).1

/-- Every text, in either mode, is tiled by its pieces, where a directive stands behind nothing
but whitespace, comments and splices on its line. -/
theorem tiling_scan : ∃ pieces, Tiling Role.isTrivia file cxx source pieces := by
  refine ⟨_, textOf_ofText file cxx source, tiles_ofText file cxx source,
    laid_ofText file cxx source, tokenize_eq file cxx source, fun count => ?_,
    fun piece member invalid => ?_⟩
  · rw [← stop_ofText file cxx source]
    exact Scanner.queue_fill count (.ofText file cxx source)
  · have all : (tokenize file cxx source).2 =
        (Scanner.ofText file cxx source).pieces.filterMap (Piece.report? file) :=
      (Scanner.scanAll_eq _ (laid_ofText file cxx source).noEnd).2
    rw [all]
    exact (tiles_ofText file cxx source).reportedOnce file member invalid

end Text

/-! ## A splice in front of a directive -/

theorem Tiles.first {leads : Role → Bool} {before pieces : List Piece} {c : Char} {text : List Char}
    (tiles : Tiles leads before pieces) (front : textOf pieces = c :: text) :
    ∃ piece rest more, pieces = piece :: rest ∧ piece.text = c :: more ∧ text = more ++ textOf rest := by
  cases pieces with
  | nil => cases front
  | cons piece rest =>
    have parts : piece.text ++ textOf rest = c :: text := front
    cases chars : piece.text with
    | nil =>
      have size := tiles.1.nonempty
      rw [chars] at size
      exact absurd size (by decide)
    | cons head more =>
      rw [chars] at parts
      rcases List.cons.inj parts with ⟨rfl, same⟩
      exact ⟨piece, rest, more, rfl, chars, same.symm⟩

/-- What stands at a backslash, a carriage return or a `#` where no token and no invalid
character does. -/
theorem Formed.gap {role : Role} {c : Char} {text behind : List Char}
    (formed : Formed role (c :: text) behind) (noToken : ∀ kind closed, role ≠ .token kind closed)
    (valid : role ≠ .invalid) :
    (c = '\\' → role = .splice ∧ text = []) ∧ (c = '\r' → role = .blank ∧ text = []) ∧
      (c = '#' → role = .directive) := by
  cases formed with
  | blank blank =>
    refine ⟨?_, fun _ => ⟨rfl, rfl⟩, ?_⟩
    · rintro rfl
      exact absurd blank (by decide)
    · rintro rfl
      exact absurd blank (by decide)
  | splice => exact ⟨fun _ => ⟨rfl, rfl⟩, by decide, by decide⟩
  | directive =>
    exact ⟨fun same => absurd same (by decide), fun same => absurd same (by decide), fun _ => rfl⟩
  | invalid => exact absurd rfl valid
  | token => exact absurd rfl (noToken _ _)
  | _ =>
    exact ⟨fun same => absurd same (by decide), fun same => absurd same (by decide),
      fun same => absurd same (by decide)⟩

/-- A backslash in front of a carriage return may stand on the line of a directive, and it is
neither whitespace nor a comment. -/
theorem not_tiling_spliced :
    ¬ ∃ pieces, Tiling Role.isSpace "t.cc" true "\\\r#x" pieces := by
  rintro ⟨pieces, tiling⟩
  have scanned : (tokenize "t.cc" true "\\\r#x").1 = [Token.endAt 4] := by decide +kernel
  have quiet : (tokenize "t.cc" true "\\\r#x").2 = [] := by decide +kernel
  have none : pieces.filterMap Piece.token? = [] := by
    have tokens := tiling.tokens
    rw [scanned] at tokens
    exact (List.append_left_eq_self.mp tokens.symm)
  have noToken : ∀ piece ∈ pieces, ∀ kind closed, piece.role ≠ .token kind closed := by
    intro piece member kind closed role
    have left := List.filterMap_eq_nil_iff.mp none piece member
    rw [Piece.token?, role] at left
    cases left
  have valid : ∀ piece ∈ pieces, piece.role ≠ .invalid := by
    intro piece member role
    have once := tiling.reported piece member role
    rw [quiet] at once
    cases once
  have whole : textOf pieces = ['\\', '\r', '#', 'x'] := tiling.whole
  have tiles := tiling.tiles
  -- the pieces are the splice, the carriage return and the directive behind them
  rcases tiles.first whole with ⟨splice, pieces, more, rfl, chars, rest⟩
  have formed := tiles.1.formed
  rw [chars] at formed
  rcases (formed.gap (noToken splice (by simp)) (valid splice (by simp))).1 rfl with ⟨role, rfl⟩
  rcases tiles.2.first rest.symm with ⟨blank, pieces, more, rfl, charsBlank, rest⟩
  have formed := tiles.2.1.formed
  rw [charsBlank] at formed
  rcases (formed.gap (noToken blank (by simp)) (valid blank (by simp))).2.1 rfl with ⟨-, rfl⟩
  rcases tiles.2.2.first rest.symm with ⟨directive, pieces, more, rfl, charsDirective, rest⟩
  have formed := tiles.2.2.1.formed
  rw [charsDirective] at formed
  have isDirective := (formed.gap (noToken directive (by simp)) (valid directive (by simp))).2.2 rfl
  rcases tiles.2.2.1.opens isDirective with ⟨recent, last, leading, covers⟩
  have line : lineBefore (textOf [splice, blank]) = ['\\', '\r'] := by
    simp [textOf, chars, charsBlank, lineBefore, List.rtakeWhile]
  have covers : ['\\', '\r'] <:+ textOf recent := line ▸ covers
  rcases List.suffix_cons_iff.mp last with rfl | later
  · have leads := leading splice (List.mem_cons_self ..)
    rw [role] at leads
    cases leads
  · rcases List.suffix_cons_iff.mp later with rfl | none
    · have short := covers.length_le
      rw [show textOf [blank] = ['\r'] by simp [textOf, charsBlank]] at short
      exact absurd short (by decide)
    · rw [List.suffix_nil.mp none] at covers
      exact absurd covers.length_le (by decide)

end Token
end CppNames
