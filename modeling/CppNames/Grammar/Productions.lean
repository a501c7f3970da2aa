import CppNames.Grammar.Cursor

namespace CppNames
namespace Grammar

/-!
# The recursive productions

The productions of the grammar refer to one another in cycles.  Every cycle passes
through one of the productions collected here, and each production is written over a
given collection of them.  Tying the knot is left to the one place that bounds the
depth of the recursion.
-/

/-- Where a declaration stands. -/
inductive Place where
  | file
  | namespaceBody
  | classBody
  | block
  | parameter
  | typeId
  deriving DecidableEq, Repr

/-- Whether a name in front of a parenthesis may declare a constructor there. -/
def Place.allowsConstructor : Place → Bool
  | .file | .namespaceBody | .classBody => true
  | _ => false

/-- A tree with the encoding of the name or type it spells. -/
structure Encoded where
  tree : Tree.Plain
  encoding : Encoding
  deriving Repr

/-- The productions through which the grammar is recursive. -/
structure Productions where
  typeId : Production Encoded
  assignment : Production Tree.Plain
  expression : Production Tree.Plain
  cast : Production Tree.Plain
  binary : Nat → Production Tree.Plain
  initializers : Production Tree.Plain
  parameter : Production Encoded
  declaration : Place → Production Tree.Plain
  statement : Production Tree.Plain

/-- The productions beyond any depth. -/
def Productions.exhausted : Productions where
  typeId := throw .endless
  assignment := throw .endless
  expression := throw .endless
  cast := throw .endless
  binary _ := throw .endless
  initializers := throw .endless
  parameter := throw .endless
  declaration _ := throw .endless
  statement := throw .endless

/-- The last identifier among the elements of a name. -/
def lastIdentifier? (name : Tree.Plain) : Option String :=
  if name.isToken .identifier then some name.text
  else ((name.elements.filter (·.isToken .identifier)).getLast?).map (·.text)

end Grammar
end CppNames
