import CppNames.Tree.Build

namespace CppNames

/-!
# Parts of a tree

The passes over a parse tree find the parts of a construct by their place in its list, or
behind a token that leads them.
-/

namespace Tree

/-- The elements of a list that are there. -/
def present {ι : Type} (tree : Tree ι) : List (Tree ι) := tree.elements.filter (!·.isNil)

/-- The number of a node. -/
def id (node : Node) : NodeId := node.label?.getD 0

/-- The first tree unless it is absent, and else the second. -/
def orElse {ι : Type} (first second : Tree ι) : Tree ι := if first.isNil then second else first

/-- Whether a list of specifiers has one of a given kind. -/
def hasToken {ι : Type} (tree : Tree ι) (kind : Token.Kind) : Bool :=
  tree.present.any (·.isToken kind)

/-- The encoding of a name: an identifier or a list with an encoded name. -/
def encodedName? {ι : Type} (tree : Tree ι) : Option Encoding :=
  match tree with
  | nil => none
  | leaf _ token =>
    if token.kind = .identifier then some (.simpleName token.text) else none
  | cell _ _ name .. => name

/-- The encoding of an identifier or a name, but of no other list. -/
def calleeName? {ι : Type} (tree : Tree ι) : Option Encoding :=
  if tree.isLeaf || tree.isA .name then tree.encodedName? else none

/-- Whether a tree is the name among the elements of a declarator. -/
def isDeclaredName {ι : Type} (tree : Tree ι) : Bool :=
  tree.isToken .identifier || tree.isA .name

/-- The place of the name of a declarator, or else of the whole declarator. -/
def declaredPlace {ι : Type} (declarator : Tree ι) : Outcome (Option Span) :=
  ((declarator.present.find? isDeclaredName).getD declarator).place

/-- The element behind the first token of a given kind. -/
def elementBehind {ι : Type} (tree : Tree ι) (kind : Token.Kind) : Tree ι :=
  ((tree.elements.dropWhile (!·.isToken kind)).drop 1).headD nil

/-- The parameter list of a function declarator. -/
def parameterList {ι : Type} (declarator : Tree ι) : Tree ι :=
  declarator.elementBehind .openParen

/-- The expression behind the `=` of a declarator. -/
def initializer {ι : Type} (declarator : Tree ι) : Tree ι := declarator.elementBehind .equals

mutual

/-- The words of a type, without the plain lists that group them. -/
def typeWords {ι : Type} : Tree ι → List (Tree ι)
  | nil => []
  | leaf label token => [leaf label token]
  | cell label construct name type head tail =>
    if construct = .cons then typeWords head ++ typeWordsBehind tail
    else [cell label construct name type head tail]

/-- The words in the tail of a plain list. -/
def typeWordsBehind {ι : Type} : Tree ι → List (Tree ι)
  | nil => []
  | leaf _ _ => []
  | cell _ _ _ _ head tail => typeWords head ++ typeWordsBehind tail

end

end Tree

end CppNames
