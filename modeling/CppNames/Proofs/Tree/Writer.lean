import CppNames.Proofs.Grammar.Reading
import CppNames.Proofs.Token.Scanner
import CppNames.Tree.Writer

namespace CppNames
namespace Tree

/-!
# Reading written text

The writer puts a blank between tokens, and nothing between two `>` at adjacent positions.
So the tokens that are read from what it writes are the tokens written, with every such pair
read as one `>>`.  Where the tokens are those of a source text, some `>>` being split, these
are the kinds and texts of the source again.

Two lists of tokens that are written alike agree once every `>>` is split; `pieces` splits it
for the comparison.
-/

open Token (shown WellRead Apart Parted)
open Scanner (Rescans rescans_nil rescans_blank rescans_token)
open Grammar (Halved)

variable {cxx : Bool} {tokens : List Token}

/-! ## What is written -/

/-- The characters written behind a token. -/
def spelledBehind (previous : Token) : List Token → List Char
  | [] => []
  | token :: rest =>
    (if adjoins previous token then [] else [' ']) ++ token.text.toList ++ spelledBehind token rest

/-- The characters written for some tokens. -/
def spelled : List Token → List Char
  | [] => []
  | token :: rest => token.text.toList ++ spelledBehind token rest

theorem toList_writeTokens {output : String} (more : output ≠ "") (previous : Token)
    (tokens : List Token) :
    (writeTokens output (some previous) tokens).toList =
      output.toList ++ spelledBehind previous tokens := by
  induction tokens generalizing output previous with
  | nil => exact (List.append_nil _).symm
  | cons token rest ih =>
    have gapSpelled : (gap output (some previous) token).toList =
        if adjoins previous token then [] else [' '] := by
      have nonempty : output.isEmpty = false := by
        cases empty : output.isEmpty with
        | false => rfl
        | true => exact absurd (String.isEmpty_iff.mp empty) more
      unfold gap
      rw [nonempty, Bool.false_or, Option.any_some]
      split <;> rfl
    have longer : output ++ gap output (some previous) token ++ token.text ≠ "" := by
      intro empty
      have lists := congrArg String.toList empty
      rw [String.toList_append, String.toList_append] at lists
      have none := (List.append_eq_nil_iff.mp (List.append_eq_nil_iff.mp lists).1).1
      exact more (String.toList_eq_nil_iff.mp none)
    unfold writeTokens spelledBehind
    rw [ih longer token, String.toList_append, String.toList_append, gapSpelled]
    simp only [List.append_assoc]

theorem toList_written (visible : ∀ token ∈ tokens, token.text ≠ "") :
    (writeTokens "" none tokens).toList = spelled tokens := by
  cases tokens with
  | nil => rfl
  | cons token rest =>
    have written : writeTokens "" none (token :: rest) = writeTokens token.text (some token) rest := by
      change writeTokens ("" ++ "" ++ token.text) (some token) rest = _
      rw [String.empty_append, String.empty_append]
    rw [written, toList_writeTokens (visible token (List.mem_cons_self ..))]
    rfl

/-! ## What is read from it -/

/-- What is read from written tokens. -/
def merged : List Token → List (Token.Kind × String)
  | left :: right :: rest =>
    if adjoins left right then (.greaterGreater, ">>") :: merged rest
    else left.shown :: merged (right :: rest)
  | [token] => [token.shown]
  | [] => []

theorem merged_cons_cons (left right : Token) (rest : List Token) :
    merged (left :: right :: rest) = if adjoins left right then (.greaterGreater, ">>") :: merged rest
      else left.shown :: merged (right :: rest) := rfl

theorem greater_of_adjoins {left right : Token} (joined : adjoins left right = true) :
    left.kind = .greater ∧ right.kind = .greater ∧ right.pos = left.pos + 1 := by
  simpa [adjoins, and_assoc] using joined

theorem shown_of_adjoins {left right : Token} (joined : adjoins left right = true)
    (leftRead : WellRead cxx left) (rightRead : WellRead cxx right) :
    left.shown = (.greater, ">") ∧ right.shown = (.greater, ">") := by
  rcases greater_of_adjoins joined with ⟨leftKind, rightKind, _⟩
  exact ⟨Prod.ext leftKind (leftRead.greater leftKind),
    Prod.ext rightKind (rightRead.greater rightKind)⟩

theorem apart_spelledBehind {previous : Token} (separate : ∀ token ∈ tokens.head?,
    adjoins previous token = false) : Apart (spelledBehind previous tokens) := by
  cases tokens with
  | nil => exact .inl rfl
  | cons token rest =>
    right
    unfold spelledBehind
    rw [separate token rfl, if_neg (by decide)]
    exact ⟨_, rfl⟩

/-- No `=` follows directly behind a written token. -/
theorem closes_spelledBehind (read : ∀ token ∈ tokens, WellRead cxx token) (previous : Token) :
    spelledBehind previous tokens = [] ∨ ∃ first more,
      spelledBehind previous tokens = first :: more ∧ (first = ' ' ∨ first = '>') := by
  cases tokens with
  | nil => exact .inl rfl
  | cons token rest =>
    right
    unfold spelledBehind
    by_cases joined : adjoins previous token = true
    · have text := (read token (List.mem_cons_self ..)).greater (greater_of_adjoins joined).2.1
      rw [if_pos joined, text]
      exact ⟨'>', _, rfl, .inr rfl⟩
    · rw [if_neg joined]
      exact ⟨' ', _, rfl, .inl rfl⟩

theorem rescans_behind {found : List (Token.Kind × String)}
    (rescans : Rescans cxx (spelled tokens) found) (previous : Token) :
    Rescans cxx (spelledBehind previous tokens) found := by
  cases tokens with
  | nil => exact rescans
  | cons token rest =>
    unfold spelledBehind
    split
    · exact rescans
    · exact rescans_blank rescans

/-- A token that stands apart is read as it is. -/
theorem rescans_settled {token : Token} {behind : List Char} {found : List (Token.Kind × String)}
    (read : WellRead cxx token) (apart : Apart behind) (rest : Rescans cxx behind found) :
    Rescans cxx (token.text.toList ++ behind) (token.shown :: found) := by
  rcases read.settled with ⟨c, text, same, reads⟩
  have whole : String.ofList (c :: (text ++ behind).take text.length) = token.text := by
    rw [List.take_left, ← same, String.ofList_toList]
  rw [same, List.cons_append]
  have token := rescans_token read.noEnd (fun lineStart => reads lineStart behind apart)
    (by rw [List.drop_left]; exact rest)
  rw [whole] at token
  exact token

theorem rescans_merged (read : ∀ token ∈ tokens, WellRead cxx token) :
    Rescans cxx (spelled tokens) (merged tokens) := by
  fun_induction merged tokens with
  | case1 left right rest joined ih =>
    rcases List.forall_mem_cons.mp read with ⟨leftRead, behindRead⟩
    rcases List.forall_mem_cons.mp behindRead with ⟨rightRead, restRead⟩
    rcases shown_of_adjoins joined leftRead rightRead with ⟨leftShown, rightShown⟩
    have leftText : left.text = ">" := congrArg Prod.snd leftShown
    have rightText : right.text = ">" := congrArg Prod.snd rightShown
    have text : spelled (left :: right :: rest) = '>' :: '>' :: spelledBehind right rest := by
      change left.text.toList ++ ((if adjoins left right then [] else [' ']) ++
        right.text.toList ++ spelledBehind right rest) = _
      rw [if_pos joined, leftText, rightText]
      rfl
    rw [text]
    exact rescans_token (by decide)
      (fun lineStart => Token.nextPiece_greaterGreater cxx lineStart
        (closes_spelledBehind restRead right)) (rescans_behind (ih restRead) right)
  | case2 left right rest separate ih =>
    rcases List.forall_mem_cons.mp read with ⟨leftRead, restRead⟩
    have apart : Apart (spelledBehind left (right :: rest)) := by
      refine apart_spelledBehind fun token member => ?_
      cases Option.mem_some_iff.mp member
      exact Bool.eq_false_iff.mpr separate
    exact rescans_settled leftRead apart (rescans_behind (ih restRead) left)
  | case3 token =>
    exact rescans_settled (read token (List.mem_cons_self ..)) (.inl rfl) (rescans_nil cxx)
  | case4 => exact rescans_nil cxx

theorem visible_of_wellRead (read : ∀ token ∈ tokens, WellRead cxx token) :
    ∀ token ∈ tokens, token.text ≠ "" := by
  intro token member empty
  rcases (read token member).settled with ⟨c, text, same, _⟩
  rw [empty] at same
  cases same

/-- What is scanned of a written text, whatever its file is called. -/
theorem tokenize_written (read : ∀ token ∈ tokens, WellRead cxx token) (file : String) :
    (tokenize file cxx (writeTokens "" none tokens)).1.map shown =
      merged tokens ++ [(.endOfFile, "")] :=
  (rescans_merged read _ rfl (toList_written (visible_of_wellRead read))).1

/-- Nothing is reported of a written text. -/
theorem quiet_written (read : ∀ token ∈ tokens, WellRead cxx token) (file : String) :
    (tokenize file cxx (writeTokens "" none tokens)).2 = [] :=
  (rescans_merged read _ rfl (toList_written (visible_of_wellRead read))).2

/-! ## Splitting -/

/-- The halves of a `>>` are read again as they are. -/
theorem wellRead_half (pos : Nat) : WellRead cxx ⟨.greater, ">", pos⟩ where
  settled := by
    have text : ">".toList = ['>'] := by decide
    refine ⟨'>', [], text, fun lineStart behind apart => ?_⟩
    rcases apart with rfl | ⟨more, rfl⟩
    · rfl
    · rfl
  noEnd := by simp
  greater _ := rfl
  greaterGreater impossible := nomatch impossible

theorem wellRead_of_halved {whole split : List Token} (halved : Halved whole split)
    (read : ∀ token ∈ whole, WellRead cxx token) : ∀ token ∈ split, WellRead cxx token :=
  halved.all (fun _ _ _ => ⟨wellRead_half _, wellRead_half _⟩) read

/-- The halves of a `>>` lie where it lies. -/
theorem within_of_halved {whole split : List Token} {stop : Nat} (halved : Halved whole split)
    (read : ∀ token ∈ whole, WellRead cxx token)
    (within : ∀ token ∈ whole, token.pos + byteLength token.text.toList ≤ stop) :
    ∀ token ∈ split, token.pos + byteLength token.text.toList ≤ stop := by
  have both : ∀ token ∈ split, WellRead cxx token ∧
      token.pos + byteLength token.text.toList ≤ stop := by
    refine halved.all (fun token shift known => ?_) fun token member =>
      ⟨read token member, within token member⟩
    have place := known.2
    have two : byteLength ">>".toList = 2 := by decide
    have one : byteLength ">".toList = 1 := by decide
    rw [known.1.greaterGreater shift, two] at place
    refine ⟨⟨wellRead_half _, ?_⟩, wellRead_half _, ?_⟩
    · rw [one]
      exact Nat.le_of_succ_le place
    · rw [one]
      exact place
  exact fun token member => (both token member).2

/-- Tokens of a text whose end is a position can be written. -/
theorem isWritable_of_within {stop : Nat} (read : ∀ token ∈ tokens, WellRead cxx token)
    (within : ∀ token ∈ tokens, token.pos + byteLength token.text.toList ≤ stop)
    (position : isPosition stop = true) : isWritable tokens = true := by
  fun_induction isWritable tokens with
  | case1 left right rest bothClose ih =>
    rcases List.forall_mem_cons.mp read with ⟨leftRead, restRead⟩
    rcases List.forall_mem_cons.mp within with ⟨place, restWithin⟩
    rw [Bool.and_eq_true]
    refine ⟨?_, ih restRead restWithin⟩
    cases closes : bothClose with
    | false => rfl
    | true =>
      have isGreater : left.kind = .greater := by
        have both : (left.kind == .greater && right.kind == .greater) = true := closes
        exact eq_of_beq (Bool.and_eq_true _ _ ▸ both).1
      have one : byteLength ">".toList = 1 := by decide
      rw [leftRead.greater isGreater, one] at place
      have below : stop < capacity 32 := of_decide_eq_true position
      exact decide_eq_true (Nat.lt_of_le_of_lt place below)
  | case2 => rfl

/-- The first of split tokens is the first token or its first half. -/
theorem head_of_halved {whole split : List Token} {first : Token} (halved : Halved whole split)
    (member : first ∈ split.head?) : ∃ token ∈ whole.head?, token.pos = first.pos ∧
      (first.kind = .greater → token.kind = .greater ∨ token.kind = .greaterGreater) := by
  cases halved with
  | nil => cases member
  | keep token _ =>
    cases Option.mem_some_iff.mp member
    exact ⟨_, rfl, rfl, .inl⟩
  | @halve token left right _ _ halves _ =>
    cases Option.mem_some_iff.mp member
    rcases Grammar.eq_of_halves? halves with ⟨shift, rfl, _⟩
    exact ⟨token, rfl, rfl, fun _ => .inr shift⟩

/-- From the tokens of a source text, however they are split, the source's own kinds and
texts are read. -/
theorem merged_of_halved {whole split : List Token} (halved : Halved whole split)
    (read : ∀ token ∈ whole, WellRead cxx token) (parted : whole.IsChain Token.Parted) :
    merged split = whole.map shown := by
  induction halved with
  | nil => rfl
  | @keep token whole split halved ih =>
    have rest := ih (List.forall_mem_cons.mp read).2 (List.isChain_cons.mp parted).2
    cases split with
    | nil => rw [List.map_cons, ← rest]; rfl
    | cons right split =>
      rcases head_of_halved halved (Option.mem_some_iff.mpr rfl) with ⟨next, first, place, closing⟩
      have separate : adjoins token right = false := by
        cases joined : adjoins token right with
        | false => rfl
        | true =>
          rcases greater_of_adjoins joined with ⟨tokenKind, rightKind, adjacent⟩
          have apart := (List.isChain_cons.mp parted).1 next first tokenKind (closing rightKind)
          exact absurd (place.trans adjacent) apart
      rw [List.map_cons, ← rest, merged_cons_cons, separate, if_neg (by decide)]
  | @halve token left right whole split halves halved ih =>
    rcases List.forall_mem_cons.mp read with ⟨tokenRead, restRead⟩
    have rest := ih restRead (List.isChain_cons.mp parted).2
    rcases Grammar.eq_of_halves? halves with ⟨shift, rfl, rfl⟩
    have whole : token.shown = (.greaterGreater, ">>") := by
      unfold shown
      rw [shift, tokenRead.greaterGreater shift]
    rw [List.map_cons, ← rest, whole, merged_cons_cons, if_pos (by simp [adjoins])]

/-! ## Comparing -/

/-- A kind with its text, `>>` being split. -/
def pieces : Token.Kind × String → List (Token.Kind × String)
  | (.greaterGreater, _) => [(.greater, ">"), (.greater, ">")]
  | other => [other]

/-- The kinds and texts of some tokens, every `>>` being split. -/
def flat (tokens : List Token) : List (Token.Kind × String) :=
  (tokens.map shown).flatMap pieces

/-- Reading written tokens changes nothing but what is split. -/
theorem flat_merged (read : ∀ token ∈ tokens, WellRead cxx token) :
    (merged tokens).flatMap pieces = flat tokens := by
  fun_induction merged tokens with
  | case1 left right rest joined ih =>
    rcases List.forall_mem_cons.mp read with ⟨leftRead, behindRead⟩
    rcases List.forall_mem_cons.mp behindRead with ⟨rightRead, restRead⟩
    rcases shown_of_adjoins joined leftRead rightRead with ⟨leftShown, rightShown⟩
    have both : pieces left.shown ++ pieces right.shown = pieces (.greaterGreater, ">>") := by
      rw [leftShown, rightShown]
      rfl
    rw [List.flatMap_cons, ih restRead, ← both]
    simp only [flat, List.map_cons, List.flatMap_cons, List.append_assoc]
  | case2 left right rest separate ih =>
    rw [List.flatMap_cons, ih (List.forall_mem_cons.mp read).2]
    rfl
  | case3 token => rfl
  | case4 => rfl

end Tree
end CppNames
