import CppNames.Text.Span
import CppNames.Token.Kind

namespace CppNames

/-!
# Tokens

A token is a kind, the text it was read from, and the byte position of that text.
-/

/-- A piece of the source text that means something. -/
structure Token where
  kind : Token.Kind
  text : String
  pos : Nat
  deriving DecidableEq, Repr, Inhabited

namespace Token

/-- The range of the source that the token covers. -/
def span (token : Token) : Span := ⟨token.pos, token.text.utf8ByteSize⟩

/-- The first position behind the token, if it can be told. -/
def stop? (token : Token) : Option Nat := token.span.stop?

/-- The token that ends every text, at a given position. -/
def endAt (pos : Nat) : Token := ⟨.endOfFile, "", pos⟩

/-- The two halves of a `>>`, at adjacent positions; other tokens are not split. -/
def halves? (token : Token) : Option (Token × Token) :=
  if token.kind = .greaterGreater then
    some (⟨.greater, ">", token.pos⟩, ⟨.greater, ">", token.pos + 1⟩)
  else none

end Token

end CppNames
