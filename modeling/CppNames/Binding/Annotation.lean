import CppNames.Binding.Shape
import CppNames.Table.Symbol

namespace CppNames

/-!
# What passes leave behind

Binding notes on nodes which scopes they have, and later passes read the notes.  A pass
over a tree ends with a result, or stops at a malformed construct or where a computation
has no answer.
-/

/-- The scopes noted on nodes; of several for one node the first counts. -/
abbrev Annotations := List (Tree.NodeId × ScopeId)

/-- The scope noted on a node. -/
def Annotations.scope? (annotations : Annotations) (node : Node) : Option ScopeId :=
  node.label?.bind fun label => (annotations.find? (·.1 == label)).map (·.2)

/-- Why a pass over a tree stops. -/
inductive PassError where
  | shape (error : ShapeError)
  | fault (fault : Fault)
  deriving DecidableEq, Repr

end CppNames
