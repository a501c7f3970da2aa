import CppNames.Grammar.Expression
import CppNames.Proofs.Tree.Shape

namespace CppNames

/-!
# What a tree spells

The tokens of a tree are meant to be the tokens that were read for it, in the same order.
`Spells` says exactly how far that is true.  Three rules lose or move a token:

* A using-declaration may have been read with a `typename` that its tree does not hold.
* A type definition or a type that names nothing may have been read with storage classes,
  none of which its tree holds.
* In a declaration or a parameter the storage classes may have stood between the words of the
  type, but its tree holds all of them in front of the words.

Nothing else is lost, moved or added.  So wherever as many tokens are spelled as the tree
holds and their kinds and texts agree one by one, they are the tokens of the tree.
-/

namespace Tree

open Grammar (grouped)

mutual

/-- The tokens that can have been read for a tree. -/
inductive Spells : Plain → List Token → Prop where
  | nil : Spells nil []
  | leaf (label : Unit) (token : Token) : Spells (leaf label token) [token]
  | cell {label : Unit} {construct : Construct} {name type : Option Encoding}
    {head tail : Plain} {front back : List Token} :
    Spells head front → Spells tail back →
    Spells (cell label construct name type head tail) (front ++ back)
  /-- The `typename` of a using-declaration is lost. -/
  | typename {label : Unit} {name type : Option Encoding} {head tail : Plain}
    {front back : List Token} {lost : Token} :
    lost.kind = .kwTypename → Spells head front → Spells tail back →
    Spells (cell label .usingDeclaration name type head tail) (front ++ lost :: back)
  /-- The storage classes of a type definition are lost. -/
  | typedefDecl {label behind : Unit} {name type nameBehind typeBehind : Option Encoding}
    {head tail : Plain} {words : List Plain} {front mixed back storage : List Token} :
    Spells head front → Interleaves storage words mixed → Spells tail back →
    Spells (cell label .typedefDecl name type head
      (cell behind .cons nameBehind typeBehind (grouped words) tail)) (front ++ (mixed ++ back))
  /-- The storage classes of a type that names nothing are lost. -/
  | typeId {label : Unit} {name type : Option Encoding} {tail : Plain} {words : List Plain}
    {mixed back storage : List Token} :
    Interleaves storage words mixed → Spells tail back →
    Spells (cell label .typeId name type (grouped words) tail) (mixed ++ back)
  /-- The storage classes of a declaration or a parameter are moved to its front. -/
  | moved {label behind : Unit} {construct : Construct}
    {name type nameBehind typeBehind : Option Encoding} {head tail : Plain} {words : List Plain}
    {mixed back : List Token} :
    construct = .declaration ∨ construct = .parameterDeclaration →
    Interleaves head.tokens words mixed → Spells tail back →
    Spells (cell label construct name type head
      (cell behind .cons nameBehind typeBehind (grouped words) tail)) (mixed ++ back)

/-- The ways in which storage classes can stand between the words of a type.  The first token
of a word is no storage class. -/
inductive Interleaves : List Token → List Plain → List Token → Prop where
  | nil : Interleaves [] [] []
  | storage {token : Token} {storage mixed : List Token} {words : List Plain} :
    token.kind.isDeclSpecifier = true → Interleaves storage words mixed →
    Interleaves (token :: storage) words (token :: mixed)
  | word {word : Plain} {words : List Plain} {first : Token} {rest storage mixed : List Token} :
    first.kind.isDeclSpecifier = false → Spells word (first :: rest) →
    Interleaves storage words mixed →
    Interleaves storage (word :: words) (first :: rest ++ mixed)

end

end Tree
end CppNames
