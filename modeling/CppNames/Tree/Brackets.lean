import CppNames.Encoding.Render
import CppNames.Tree.Basic

namespace CppNames
namespace Tree

/-!
# Trees in brackets

For reading by eye a tree is shown as nested brackets, `[a [b c] nil]`, with the name
of a construct in front of its brackets and the encodings behind them, if they are
asked for.
-/

variable {ι : Type}

/-- What is shown besides the elements. -/
structure BracketStyle where
  encoded : Bool
  annotated : Bool
  deriving DecidableEq, Repr

/-- An encoding behind a bracket, with a word in front of it. -/
def encodingNote (word : String) : Option Encoding → Except Encoding.Flaw String
  | none => .ok ""
  | some encoding => encoding.readable.map fun text => word ++ text

/-- The encodings of a list as shown behind its bracket. -/
def encodingNotes (style : BracketStyle) (name type : Option Encoding) :
    Except Encoding.Flaw String :=
  if style.encoded then do
    let shownName ← encodingNote "#name:" name
    let shownType ← encodingNote "#type:" type
    .ok (shownName ++ shownType)
  else .ok ""

mutual

/-- The tree in brackets. -/
def brackets (style : BracketStyle) : Tree ι → Except Encoding.Flaw String
  | nil => .ok "nil"
  | leaf _ token => .ok token.text
  | cell _ construct name type head tail => do
    let lead := if style.annotated && construct != .cons then construct.label else ""
    let first ← brackets style head
    let rest ← tailBrackets style tail
    let notes ← encodingNotes style name type
    .ok (lead ++ "[" ++ first ++ rest ++ "]" ++ notes)

/-- The elements of a tail, each behind a space.  A token in place of a tail is shown as
an absent element. -/
def tailBrackets (style : BracketStyle) : Tree ι → Except Encoding.Flaw String
  | nil => .ok ""
  | leaf _ _ => .ok " nil"
  | cell _ _ _ _ head tail => do
    let first ← brackets style head
    let rest ← tailBrackets style tail
    .ok (" " ++ first ++ rest)

end

end Tree
end CppNames
