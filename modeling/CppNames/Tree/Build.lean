import CppNames.Tree.Basic

namespace CppNames
namespace Tree

/-!
# Building trees

Lists are built from their elements.  A list that spells a construct has at least one
element, which is absent where none is given; a plain list without elements is the
empty tree.
-/

/-- A parse tree without labels. -/
abbrev Plain := Tree Unit

/-- A token as a tree. -/
def ofToken (token : Token) : Plain := leaf () token

/-- One cell. -/
def cons (construct : Construct) (head tail : Plain) : Plain :=
  cell () construct none none head tail

/-- The plain list of some elements. -/
def seq (elements : List Plain) : Plain := elements.foldr (cons .cons) nil

/-- The list of some elements that spells a construct and carries encodings. -/
def encodedList (construct : Construct) (name type : Option Encoding)
    (elements : List Plain) : Plain :=
  cell () construct name type (elements.headD nil) (seq elements.tail)

/-- The list of some elements that spells a construct. -/
def list (construct : Construct) (elements : List Plain) : Plain :=
  encodedList construct none none elements

@[simp] theorem tokens_seq (elements : List Plain) :
    (seq elements).tokens = elements.flatMap tokens := by
  induction elements with
  | nil => rfl
  | cons first rest ih => simp_all [seq, cons, tokens]

@[simp] theorem tokens_encodedList (construct : Construct) (name type : Option Encoding)
    (elements : List Plain) :
    (encodedList construct name type elements).tokens = elements.flatMap tokens := by
  cases elements <;> simp [encodedList, tokens]

@[simp] theorem tokens_list (construct : Construct) (elements : List Plain) :
    (list construct elements).tokens = elements.flatMap tokens :=
  tokens_encodedList ..

/-! ## Numbering -/

/-- The number of a node. -/
abbrev NodeId := Nat

mutual

/-- Numbers a tree from a given number on.  The root comes first, then the elements of
a list from left to right, each with all of its own nodes.  The answer holds the next
free number. -/
def numberFrom (next : NodeId) : Plain → Tree NodeId × NodeId
  | nil => (nil, next)
  | leaf _ token => (leaf next token, next + 1)
  | cell _ construct name type head tail =>
    let (first, behindFirst) := numberFrom (next + 1) head
    let (rest, behindRest) := numberTail next behindFirst tail
    (cell next construct name type first rest, behindRest)

/-- Numbers the elements of a tail.  Its cells are not nodes of their own and carry the
number of their list. -/
def numberTail (list next : NodeId) : Plain → Tree NodeId × NodeId
  | nil => (nil, next)
  | leaf _ token => (leaf list token, next)
  | cell _ construct name type head tail =>
    let (first, behindFirst) := numberFrom next head
    let (rest, behindRest) := numberTail list behindFirst tail
    (cell list construct name type first rest, behindRest)

end

/-- The tree with its nodes numbered from zero. -/
def numbered (tree : Plain) : Tree NodeId := (numberFrom 0 tree).1

end Tree

/-- A node of a numbered parse tree. -/
abbrev Node := Tree Tree.NodeId

namespace Tree

mutual

/-- The nodes of a tree in the order of their numbers. -/
def preorder {ι : Type} : Tree ι → List (Tree ι)
  | nil => []
  | leaf label token => [leaf label token]
  | cell label construct name type head tail =>
    cell label construct name type head tail :: (head.preorder ++ tail.preorderTail)

/-- The nodes of the elements of a tail. -/
def preorderTail {ι : Type} : Tree ι → List (Tree ι)
  | nil => []
  | leaf _ _ => []
  | cell _ _ _ _ head tail => head.preorder ++ tail.preorderTail

end

end Tree

end CppNames
