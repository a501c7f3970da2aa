import CppNames.Fault
import CppNames.Token.Basic
import CppNames.Tree.Construct

namespace CppNames

/-!
# Parse trees

A parse tree is nothing, a token, or a list.  A list is a chain of cells.  Its first
cell carries the construct that the list spells and, where there is one, the encoded
name or type of what it declares; the cells behind it are plain.  An element of a list
may be absent, and then it is the empty tree.

The type of labels is a parameter.  The parser leaves trees unlabelled; once a tree is
complete its nodes are numbered, and declarations refer to nodes by their numbers.
-/

/-- A parse tree whose tokens and lists carry labels. -/
inductive Tree (ι : Type) where
  | nil
  | leaf (label : ι) (token : Token)
  | cell (label : ι) (construct : Construct) (name type : Option Encoding)
      (head tail : Tree ι)
  deriving Repr, Inhabited

namespace Tree

variable {ι : Type}

/-! ## What a tree is -/

/-- Whether the tree is absent. -/
def isNil : Tree ι → Bool
  | nil => true
  | _ => false

/-- Whether the tree is a token. -/
def isLeaf : Tree ι → Bool
  | leaf _ _ => true
  | _ => false

/-- Whether the tree is a list. -/
def isCell : Tree ι → Bool
  | cell .. => true
  | _ => false

/-- The label of a token or list. -/
def label? : Tree ι → Option ι
  | nil => none
  | leaf label _ => some label
  | cell label .. => some label

/-- The token of a leaf. -/
def token? : Tree ι → Option Token
  | leaf _ token => some token
  | _ => none

/-- The kind of a leaf's token. -/
def kind? (tree : Tree ι) : Option Token.Kind := tree.token?.map (·.kind)

/-- Whether the tree is a token of a given kind. -/
def isToken (tree : Tree ι) (kind : Token.Kind) : Bool := tree.kind? == some kind

/-- What a list spells. -/
def construct? : Tree ι → Option Construct
  | cell _ construct .. => some construct
  | _ => none

/-- Whether the tree is a list that spells a given construct. -/
def isA (tree : Tree ι) (construct : Construct) : Bool := tree.construct? == some construct

/-- The text of a token, and no text for anything else. -/
def text : Tree ι → String
  | leaf _ token => token.text
  | _ => ""

/-- Whether the tree is a token with a given text. -/
def isText (tree : Tree ι) (text : String) : Bool := tree.token?.any (·.text == text)

/-- The encoded name that a list carries. -/
def name? : Tree ι → Option Encoding
  | cell _ _ name .. => name
  | _ => none

/-- The encoded type that a list carries. -/
def type? : Tree ι → Option Encoding
  | cell _ _ _ type .. => type
  | _ => none

/-! ## Elements -/

/-- The first element of a list; other trees have none. -/
def head : Tree ι → Tree ι
  | cell _ _ _ _ head _ => head
  | _ => nil

/-- The list behind the first element. -/
def tail : Tree ι → Tree ι
  | cell _ _ _ _ _ tail => tail
  | _ => nil

/-- What follows a number of steps from tail to tail. -/
def dropped : Nat → Tree ι → Tree ι
  | 0, tree => tree
  | count + 1, tree => dropped count tree.tail

/-- The list behind a number of elements; a token in its place is no list. -/
def drop (tree : Tree ι) (count : Nat) : Tree ι :=
  match dropped count tree with
  | leaf _ _ => nil
  | rest => rest

/-- The element at a position, counted from zero.  Absent elements and positions
outside the list give the empty tree. -/
def nth (tree : Tree ι) (position : Nat) : Tree ι := (tree.drop position).head

/-- The first element. -/
def first (tree : Tree ι) : Tree ι := tree.nth 0

/-- The second element. -/
def second (tree : Tree ι) : Tree ι := tree.nth 1

/-- The third element. -/
def third (tree : Tree ι) : Tree ι := tree.nth 2

/-- The elements of a chain of cells.  A token in place of a tail counts as a cell
without an element. -/
def chain : Tree ι → List (Tree ι)
  | nil => []
  | leaf _ _ => [nil]
  | cell _ _ _ _ head tail => head :: chain tail

/-- The elements of a list; a token has none. -/
def elements : Tree ι → List (Tree ι)
  | nil => []
  | leaf _ _ => []
  | cell _ _ _ _ head tail => head :: chain tail

/-- The number of elements of a list. -/
def length (tree : Tree ι) : Nat := tree.elements.length

/-- The last element of a list. -/
def last (tree : Tree ι) : Tree ι := tree.elements.getLastD nil

/-! ## Tokens of a tree -/

/-- The tokens of a tree in the order of the source. -/
def tokens : Tree ι → List Token
  | nil => []
  | leaf _ token => [token]
  | cell _ _ _ _ head tail => head.tokens ++ tail.tokens

/-- The range from the first to the last token, which a tree without tokens has not.  It
must be possible to tell where both tokens end. -/
def place (tree : Tree ι) : Outcome (Option Span) :=
  match tree.tokens with
  | [] => .ok none
  | first :: rest => .ofBounded ((first.span.union? (rest.getLastD first).span).map some)

/-- The texts of the tokens, one directly behind the other, such as `A::B` for a
qualified name. -/
def joined (tree : Tree ι) : String := String.join (tree.tokens.map (·.text))

/-- The number of tokens and cells. -/
def size : Tree ι → Nat
  | nil => 0
  | leaf _ _ => 1
  | cell _ _ _ _ head tail => 1 + head.size + tail.size

theorem size_head_le (tree : Tree ι) : tree.head.size ≤ tree.size - 1 := by
  cases tree <;> simp only [head, size] <;> omega

theorem size_tail_le (tree : Tree ι) : tree.tail.size ≤ tree.size - 1 := by
  cases tree <;> simp only [tail, size] <;> omega

theorem size_dropped_le (count : Nat) (tree : Tree ι) : (dropped count tree).size ≤ tree.size := by
  induction count generalizing tree with
  | zero => exact Nat.le_refl _
  | succ count ih => exact Nat.le_trans (ih _) (Nat.le_trans (size_tail_le tree) (Nat.sub_le ..))

theorem size_drop_le (tree : Tree ι) (count : Nat) : (tree.drop count).size ≤ tree.size := by
  have bound := size_dropped_le count tree
  unfold drop
  split
  · simp [size]
  · exact bound

/-- An element is smaller than its list. -/
theorem size_nth_lt (tree : Tree ι) (position : Nat) (list : tree.isCell = true) :
    (tree.nth position).size < tree.size := by
  have positive : 0 < tree.size := by
    cases tree with
    | nil => simp [isCell] at list
    | leaf _ _ => simp [isCell] at list
    | cell _ _ _ _ _ _ => simp only [size]; omega
  have step := size_head_le (tree.drop position)
  have bound := size_drop_le tree position
  unfold nth
  by_cases empty : (tree.drop position).size = 0
  · omega
  · omega

end Tree

end CppNames
