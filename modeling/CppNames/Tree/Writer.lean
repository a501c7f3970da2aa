import CppNames.Tree.Basic

namespace CppNames
namespace Tree

/-!
# Writing a tree back as source text

The tokens of a tree are written with one space between them.  Two `>` at adjacent
positions are the halves of one `>>` and are written as one, so that reading the
written text gives the tokens of the source again.  Behind a `>` at the last position
there is no adjacent one, and a tree in which another `>` follows it cannot be written.
-/

variable {ι : Type}

/-- Whether two tokens, one directly behind the other, are halves of one `>>`. -/
def adjoins (left right : Token) : Bool :=
  left.kind == .greater && right.kind == .greater && right.pos == left.pos + 1

/-- What is written before a token: nothing in front of the text, and nothing behind
the other half of a `>>`. -/
def gap (output : String) (previous : Option Token) (token : Token) : String :=
  if output.isEmpty || previous.any (adjoins · token) then "" else " "

/-- Writes tokens behind a text that ends in a given token. -/
def writeTokens (output : String) (previous : Option Token) : List Token → String
  | [] => output
  | token :: rest =>
    writeTokens (output ++ gap output previous token ++ token.text) (some token) rest

/-- Whether the position behind every `>` in front of another `>` can be told. -/
def isWritable : List Token → Bool
  | left :: right :: rest =>
    let bothClose := left.kind == .greater && right.kind == .greater
    (!bothClose || isPosition (left.pos + 1)) && isWritable (right :: rest)
  | _ => true

/-- The source text of a tree. -/
def written (tree : Tree ι) : Outcome String :=
  if isWritable tree.tokens then .ok (writeTokens "" none tree.tokens) else .error .overflow

end Tree
end CppNames
