import CppNames.Proofs.Grammar.Reading
import CppNames.Proofs.Token.Tiling

namespace CppNames

/-!
# A stream of tokens is a list of tokens

A stream reads its text as late as it can.  What it holds at a time is a queue of tokens that
were read already and a scanner in front of the rest; looking ahead moves tokens from the one
to the other, and splitting a `>>` changes the queue while later tokens stand in it.  A reader
sees none of this: every request is answered as by the list of all tokens of the text, whose
last token, the end, goes on for ever.

Between the two stands `TokenStream.entry`, the token a number of places ahead.  The relation
`Holds` compares it with the entries of the list only, so it does not matter how many tokens,
and how many ends, are in the queue.  `answers_ofText` is the result: the answers are the same
for every run of requests, and the tokens taken away with those that are left make up the tokens
of the text, some `>>` being split.
-/

open Grammar (Halved)

/-! ## Requests -/

/-- What a reader asks of the tokens in front of it. -/
inductive Request where
  | lookAhead (distance : Nat)
  | peek
  | take
  | splitShift
  deriving DecidableEq, Repr

namespace Request

/-- The answer of a stream, and the stream behind the request. -/
def onStream (request : Request) (stream : TokenStream) : Option Token × TokenStream :=
  match request with
  | lookAhead distance => (some (stream.lookAhead distance).1, (stream.lookAhead distance).2)
  | peek => (some stream.peek.1, stream.peek.2)
  | take => (some stream.take.1, stream.take.2)
  | splitShift => (none, stream.splitShift)

/-- The entry of a list whose last token goes on for ever. -/
def entryOf (tokens : List Token) (distance : Nat) : Option Token :=
  tokens[distance]?.or tokens.getLast?

/-- The list without its first token, which stays if it is the end. -/
def takeFrom : List Token → List Token
  | [] => []
  | token :: rest => if token.kind = .endOfFile then token :: rest else rest

/-- The list with a `>>` in front replaced by two tokens `>` at consecutive positions. -/
def splitIn : List Token → List Token
  | [] => []
  | token :: rest =>
    if token.kind = .greaterGreater then
      ⟨.greater, ">", token.pos⟩ :: ⟨.greater, ">", token.pos + 1⟩ :: rest
    else token :: rest

/-- The answer of a list of tokens that ends with the end token, and the list behind the
request. -/
def onList (request : Request) (tokens : List Token) : Option Token × List Token :=
  match request with
  | lookAhead distance => (entryOf tokens distance, tokens)
  | peek => (entryOf tokens 0, tokens)
  | take => (entryOf tokens 0, takeFrom tokens)
  | splitShift => (none, splitIn tokens)

/-- The tokens that a request takes away, given its answer. -/
def taken (request : Request) (answer : Option Token) : List Token :=
  match request with
  | take => answer.toList.filter (·.kind ≠ .endOfFile)
  | _ => []

/-- The answers to some requests, one after the other, and what is in front behind them. -/
def answers {σ : Type} (answer : Request → σ → Option Token × σ) :
    List Request → σ → List (Option Token) × σ
  | [], state => ([], state)
  | request :: later, state =>
    ((answer request state).1 :: (answers answer later (answer request state).2).1,
      (answers answer later (answer request state).2).2)

/-- The tokens that some requests take away, given their answers. -/
def allTaken (requests : List Request) (given : List (Option Token)) : List Token :=
  (List.zipWith taken requests given).flatten

/-- Where related readers answer every request alike and stay related, they answer all runs of
requests alike. -/
theorem answers_simulated {σ τ : Type} {left : Request → σ → Option Token × σ}
    {right : Request → τ → Option Token × τ} {Related : σ → τ → Prop}
    (step : ∀ request state other, Related state other →
      (left request state).1 = (right request other).1 ∧
        Related (left request state).2 (right request other).2)
    (requests : List Request) {state : σ} {other : τ} (related : Related state other) :
    (answers left requests state).1 = (answers right requests other).1 ∧
      Related (answers left requests state).2 (answers right requests other).2 := by
  induction requests generalizing state other with
  | nil => exact ⟨rfl, related⟩
  | cons request later ih =>
    rcases step request state other related with ⟨same, still⟩
    rcases ih still with ⟨sameLater, atLast⟩
    exact ⟨congrArg₂ List.cons same sameLater, atLast⟩

/-! ## What a list gives away -/

/-- A request splits a `>>`, takes the first token away, or leaves the list alone. -/
theorem halved_onList (request : Request) (tokens : List Token) :
    Halved tokens (request.taken (request.onList tokens).1 ++ (request.onList tokens).2) := by
  cases request with
  | lookAhead distance => exact .refl tokens
  | peek => exact .refl tokens
  | take =>
    cases tokens with
    | nil => exact .nil
    | cons token rest =>
      by_cases ended : token.kind = .endOfFile
      · simpa [taken, onList, entryOf, takeFrom, ended] using Halved.refl (token :: rest)
      · simpa [taken, onList, entryOf, takeFrom, ended] using Halved.refl (token :: rest)
  | splitShift =>
    cases tokens with
    | nil => exact .nil
    | cons token rest =>
      by_cases shift : token.kind = .greaterGreater
      · have halves : token.halves? =
            some (⟨.greater, ">", token.pos⟩, ⟨.greater, ">", token.pos + 1⟩) := if_pos shift
        simpa [taken, onList, splitIn, shift] using Halved.halve halves (.refl rest)
      · simpa [taken, onList, splitIn, shift] using Halved.refl (token :: rest)

/-- The tokens taken away and those that are left are the tokens of the list. -/
theorem halved_answers (requests : List Request) (tokens : List Token) :
    Halved tokens (allTaken requests (answers onList requests tokens).1 ++
      (answers onList requests tokens).2) := by
  induction requests generalizing tokens with
  | nil => exact .refl tokens
  | cons request later ih =>
    have first := halved_onList request tokens
    have behind := (Halved.refl (request.taken (request.onList tokens).1)).append
      (ih (request.onList tokens).2)
    have whole := first.trans behind
    rw [← List.append_assoc] at whole
    exact whole

end Request

namespace TokenStream

/-! ## What a stream has in front of it -/

/-- The token that ends the text of a stream. -/
def final (stream : TokenStream) : Token := Token.endAt stream.scanner.stop

/-- The token a given number of places ahead. -/
def entry (stream : TokenStream) (distance : Nat) : Token :=
  (stream.queue ++ stream.scanner.ahead).getD distance stream.final

/-- Reading a token into the queue changes nothing in front of the reader. -/
theorem entry_scanned (stream : TokenStream) (distance : Nat) :
    entry ⟨stream.scanner.scan.2, stream.queue ++ [stream.scanner.scan.1]⟩ distance =
      stream.entry distance := by
  have next := Scanner.next_scan stream.scanner
  simp only [entry, final, next.ahead, next.stop, next.token, List.append_assoc]
  cases stream.scanner.ahead with
  | cons first rest => rfl
  | nil =>
    -- an end token at the end of the queue is what was found there before
    simp only [List.headD_nil, List.tail_nil, List.append_nil, List.getD_eq_getElem?_getD]
    rcases Nat.lt_or_ge distance stream.queue.length with inside | outside
    · rw [List.getElem?_append_left inside]
    · rw [List.getElem?_append_right outside, List.getElem?_eq_none outside, List.getElem?_singleton]
      split <;> rfl

theorem fill_keeps (count : Nat) (stream : TokenStream) :
    (fill count stream).final = stream.final ∧
      ∀ distance, (fill count stream).entry distance = stream.entry distance := by
  induction count generalizing stream with
  | zero => exact ⟨rfl, fun _ => rfl⟩
  | succ count ih =>
    rcases ih ⟨stream.scanner.scan.2, stream.queue ++ [stream.scanner.scan.1]⟩ with ⟨final, entries⟩
    have stop := (Scanner.next_scan stream.scanner).stop
    exact ⟨final.trans (congrArg Token.endAt stop),
      fun distance => (entries distance).trans (entry_scanned stream distance)⟩

/-- The tokens in the queue are the first ones in front of the reader. -/
theorem entry_of_queue {stream : TokenStream} {distance : Nat} {token : Token}
    (held : stream.queue[distance]? = some token) : stream.entry distance = token := by
  rcases List.getElem?_eq_some_iff.mp held with ⟨inside, -⟩
  rw [entry, List.getD_eq_getElem?_getD, List.getElem?_append_left inside, held]
  rfl

/-- Looking ahead answers the token there. -/
theorem lookAhead_entry (stream : TokenStream) (distance : Nat) :
    (stream.lookAhead distance).1 = stream.entry distance := by
  rw [← (fill_keeps (distance + 1 - stream.queue.length) stream).2]
  refine (entry_of_queue ?_).symm
  exact (List.getElem?_eq_getElem _)

/-- Looking ahead leaves what is in front of the reader as it is. -/
theorem lookAhead_keeps (stream : TokenStream) (distance : Nat) :
    (stream.lookAhead distance).2.final = stream.final ∧
      ∀ other, (stream.lookAhead distance).2.entry other = stream.entry other :=
  fill_keeps _ stream

/-- The first token stands in the queue once it was looked at. -/
theorem queue_peek (stream : TokenStream) :
    ∃ rest, stream.peek.2.queue = stream.entry 0 :: rest := by
  have size : 0 < stream.peek.2.queue.length := by
    have length := length_queue_fill (0 + 1 - stream.queue.length) stream
    change 0 < (fill (0 + 1 - stream.queue.length) stream).queue.length
    omega
  rcases List.exists_cons_of_length_pos size with ⟨first, rest, front⟩
  refine ⟨rest, ?_⟩
  have first : stream.peek.2.entry 0 = first := entry_of_queue (by rw [front]; rfl)
  rw [front, ← (lookAhead_keeps stream 0).2 0]
  exact congrArg (· :: rest) first.symm

theorem take_eq (stream : TokenStream) :
    stream.take =
      if (stream.entry 0).kind = .endOfFile then (stream.entry 0, stream.peek.2)
      else (stream.entry 0, ⟨stream.peek.2.scanner, stream.peek.2.queue.tail⟩) := by
  rw [← lookAhead_entry]
  rfl

section Split

variable {stream : TokenStream}

theorem splitShift_of_halves {left right : Token}
    (halves : (stream.entry 0).halves? = some (left, right)) :
    stream.splitShift = ⟨stream.peek.2.scanner, left :: right :: stream.peek.2.queue.tail⟩ := by
  rw [← lookAhead_entry] at halves
  rcases peeked : stream.peek with ⟨token, filled⟩
  have halves : token.halves? = some (left, right) := by
    rw [← halves]
    exact congrArg (·.1.halves?) peeked.symm
  simp only [splitShift, peeked, halves]

theorem splitShift_of_whole (whole : (stream.entry 0).halves? = none) :
    stream.splitShift = stream.peek.2 := by
  rw [← lookAhead_entry] at whole
  rcases peeked : stream.peek with ⟨token, filled⟩
  have whole : token.halves? = none := by
    rw [← whole]
    exact congrArg (·.1.halves?) peeked.symm
  simp only [splitShift, peeked, whole]

end Split

/-! ## Comparing a stream with a list -/

/-- A stream has some tokens in front of it, and behind them the end for ever. -/
structure Holds (final : Token) (stream : TokenStream) (tokens : List Token) : Prop where
  closed : stream.final = final
  ends : final.kind = .endOfFile
  noEnd : ∀ token ∈ tokens, token.kind ≠ .endOfFile
  entries : ∀ distance, stream.entry distance = tokens.getD distance final

variable {final : Token} {stream : TokenStream} {tokens : List Token}

theorem Holds.lookAhead (holds : Holds final stream tokens) (distance : Nat) :
    Holds final (stream.lookAhead distance).2 tokens := by
  rcases lookAhead_keeps stream distance with ⟨same, entries⟩
  exact ⟨same.trans holds.closed, holds.ends, holds.noEnd,
    fun other => (entries other).trans (holds.entries other)⟩

/-- The entries of a stream are those of the list that the end token closes. -/
theorem Holds.entryOf (holds : Holds final stream tokens) (distance : Nat) :
    some (stream.entry distance) = Request.entryOf (tokens ++ [final]) distance := by
  rw [holds.entries, Request.entryOf, List.getLast?_concat, List.getD_eq_getElem?_getD]
  rcases Nat.lt_or_ge distance tokens.length with inside | outside
  · rw [List.getElem?_append_left inside, List.getElem?_eq_getElem inside]
    rfl
  · rw [List.getElem?_append_right outside, List.getElem?_eq_none outside, List.getElem?_singleton]
    split <;> rfl

/-- The first token is taken away unless it is the end. -/
theorem Holds.take (holds : Holds final stream tokens) :
    ∃ rest, Holds final stream.take.2 rest ∧
      Request.takeFrom (tokens ++ [final]) = rest ++ [final] ∧
      stream.take.1 = stream.entry 0 := by
  rcases queue_peek stream with ⟨queued, front⟩
  have peeked := holds.lookAhead 0
  rw [take_eq]
  cases tokens with
  | nil =>
    have ended : (stream.entry 0).kind = .endOfFile := by
      rw [holds.entries]
      exact holds.ends
    rw [if_pos ended]
    exact ⟨[], peeked, if_pos holds.ends, rfl⟩
  | cons first rest =>
    have same : stream.entry 0 = first := holds.entries 0
    have goesOn : first.kind ≠ .endOfFile := holds.noEnd first (List.mem_cons_self ..)
    rw [same] at front ⊢
    rw [if_neg goesOn]
    refine ⟨rest, ⟨peeked.closed, holds.ends, fun other member =>
      holds.noEnd other (List.mem_cons_of_mem _ member), fun distance => ?_⟩, if_neg goesOn, rfl⟩
    have next := peeked.entries (distance + 1)
    rw [entry, show (stream.lookAhead 0).2.queue = first :: queued from front] at next
    rw [entry, front]
    exact next

/-- A `>>` in front is split into two tokens. -/
theorem Holds.splitShift (holds : Holds final stream tokens) :
    ∃ split, Holds final stream.splitShift split ∧
      Request.splitIn (tokens ++ [final]) = split ++ [final] := by
  rcases queue_peek stream with ⟨queued, front⟩
  have peeked := holds.lookAhead 0
  cases tokens with
  | nil =>
    have isEnd : stream.entry 0 = final := holds.entries 0
    have whole : ¬ final.kind = .greaterGreater := by rw [holds.ends]; decide
    rw [splitShift_of_whole (by rw [isEnd]; exact if_neg whole)]
    exact ⟨[], peeked, if_neg whole⟩
  | cons first rest =>
    have same : stream.entry 0 = first := holds.entries 0
    rw [same] at front
    by_cases shift : first.kind = .greaterGreater
    · have halves : first.halves? =
          some (⟨.greater, ">", first.pos⟩, ⟨.greater, ">", first.pos + 1⟩) := if_pos shift
      rw [splitShift_of_halves (by rw [same]; exact halves), front]
      refine ⟨⟨.greater, ">", first.pos⟩ :: ⟨.greater, ">", first.pos + 1⟩ :: rest,
        ⟨peeked.closed, holds.ends, ?_, fun distance => ?_⟩, if_pos shift⟩
      · rintro other member
        rcases List.mem_cons.mp member with rfl | member
        · exact fun ended => by cases ended
        · rcases List.mem_cons.mp member with rfl | member
          · exact fun ended => by cases ended
          · exact holds.noEnd other (List.mem_cons_of_mem _ member)
      · -- the two halves are new; behind them stands what stood behind the `>>`
        rcases distance with _ | _ | distance
        · rfl
        · rfl
        · have next := peeked.entries (distance + 1)
          rw [entry, show (stream.lookAhead 0).2.queue = first :: queued from front] at next
          exact next
    · rw [splitShift_of_whole (by rw [same]; exact if_neg shift)]
      exact ⟨first :: rest, peeked, if_neg shift⟩

/-! ## The answers of a stream -/

/-- A stream and a list that the end token closes have the same tokens in front. -/
def Matches (stream : TokenStream) (list : List Token) : Prop :=
  ∃ tokens, Holds stream.final stream tokens ∧ list = tokens ++ [stream.final]

theorem Matches.intro (holds : Holds final stream tokens) : Matches stream (tokens ++ [final]) := by
  rcases holds.closed with rfl
  exact ⟨tokens, holds, rfl⟩

/-- Every request is answered by a stream as by the list, and leaves the same tokens. -/
theorem Matches.answer {list : List Token} (request : Request) (same : Matches stream list) :
    (request.onStream stream).1 = (request.onList list).1 ∧
      Matches (request.onStream stream).2 (request.onList list).2 := by
  rcases same with ⟨tokens, holds, rfl⟩
  have looked : ∀ distance, some (stream.lookAhead distance).1 =
      Request.entryOf (tokens ++ [stream.final]) distance := fun distance => by
    rw [lookAhead_entry]
    exact holds.entryOf distance
  cases request with
  | lookAhead distance => exact ⟨looked distance, .intro (holds.lookAhead distance)⟩
  | peek => exact ⟨looked 0, .intro (holds.lookAhead 0)⟩
  | take =>
    rcases holds.take with ⟨rest, still, left, token⟩
    refine ⟨?_, ?_⟩
    · change some stream.take.1 = _
      rw [token]
      exact holds.entryOf 0
    · change Matches stream.take.2 (Request.takeFrom _)
      rw [left]
      exact .intro still
  | splitShift =>
    rcases holds.splitShift with ⟨split, still, left⟩
    refine ⟨rfl, ?_⟩
    change Matches stream.splitShift (Request.splitIn _)
    rw [left]
    exact .intro still

theorem matches_ofText (file : String) (cxx : Bool) (source : String) :
    Matches (ofText file cxx source) (tokenize file cxx source).1 := by
  have final : (ofText file cxx source).final = Token.endAt source.utf8ByteSize :=
    congrArg Token.endAt (Token.stop_ofText file cxx source)
  rw [Token.tokenize_eq]
  refine .intro ⟨final, rfl, (Token.laid_ofText file cxx source).noEnd, fun distance => ?_⟩
  rw [← final]
  rfl

/-- Every run of requests is answered by the stream of a text as by the list of all its tokens.
The tokens taken away and those that are left are the tokens of the text in their order, some
`>>` being split. -/
theorem answers_ofText (file : String) (cxx : Bool) (source : String) (requests : List Request) :
    (Request.answers Request.onStream requests (ofText file cxx source)).1 =
        (Request.answers Request.onList requests (tokenize file cxx source).1).1 ∧
      Halved (tokenize file cxx source).1
        (Request.allTaken requests
            (Request.answers Request.onStream requests (ofText file cxx source)).1 ++
          (Request.answers Request.onList requests (tokenize file cxx source).1).2) := by
  have alike := (Request.answers_simulated
    (fun request _ _ same => Matches.answer request same) requests
    (matches_ofText file cxx source)).1
  rw [alike]
  exact ⟨rfl, Request.halved_answers requests (tokenize file cxx source).1⟩

end TokenStream
end CppNames
