import CppNames.Token.Scanner

namespace CppNames

/-!
# Looking ahead

A token stream holds the tokens that were read from its scanner and not yet taken.
Looking ahead reads as many tokens as it needs; behind the end of the text every look
ahead finds the end token, which is never taken away.
-/

/-- A scanner behind a queue of tokens that are read and not yet taken. -/
structure TokenStream where
  scanner : Scanner
  queue : List Token
  deriving Repr

namespace TokenStream

/-- The stream of all tokens of a text. -/
def ofText (file : String) (cxx : Bool) (text : String) : TokenStream :=
  ⟨Scanner.ofText file cxx text, []⟩

/-- Reads a given number of tokens into the queue. -/
def fill : Nat → TokenStream → TokenStream
  | 0, stream => stream
  | count + 1, stream =>
    let (token, scanner) := stream.scanner.scan
    fill count ⟨scanner, stream.queue ++ [token]⟩

theorem length_queue_fill (count : Nat) (stream : TokenStream) :
    (fill count stream).queue.length = stream.queue.length + count := by
  induction count generalizing stream with
  | zero => rfl
  | succ count ih => simp only [fill, ih, List.length_append, List.length_singleton]; omega

/-- The token a given number of places ahead, zero for the next one. -/
def lookAhead (stream : TokenStream) (distance : Nat) : Token × TokenStream :=
  let filled := fill (distance + 1 - stream.queue.length) stream
  have inside : distance < filled.queue.length := by
    simp only [filled, length_queue_fill]; omega
  (filled.queue.get ⟨distance, inside⟩, filled)

/-- The next token, which stays in the stream. -/
def peek (stream : TokenStream) : Token × TokenStream := stream.lookAhead 0

/-- Takes the next token; the end token stays. -/
def take (stream : TokenStream) : Token × TokenStream :=
  let (token, filled) := stream.peek
  if token.kind = .endOfFile then (token, filled)
  else (token, { filled with queue := filled.queue.tail })

/-- Replaces a `>>` in front of the stream by two tokens `>`. -/
def splitShift (stream : TokenStream) : TokenStream :=
  let (token, filled) := stream.peek
  match token.halves? with
  | some (left, right) => { filled with queue := left :: right :: filled.queue.tail }
  | none => filled

/-- The problems reported since they were last asked for. -/
def takeLog (stream : TokenStream) : Log × TokenStream :=
  (stream.scanner.log, { stream with scanner := { stream.scanner with log := [] } })

end TokenStream

end CppNames
