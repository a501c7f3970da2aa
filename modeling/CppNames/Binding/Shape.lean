import CppNames.Tree.Build

namespace CppNames

/-!
# Malformed constructs

The passes over a parse tree rely on the shapes that the grammar gives its constructs.
A tree built by hand may lack them, and then a pass stops at the construct that does.
-/

/-- What a construct lacks. -/
inductive Expectation where
  | bracedBody
  | classBody
  | className
  | enumerators
  | enumName
  | declarator
  | functionBody
  | declaratorName
  | templatedDeclaration
  | namespaceName
  | name
  | loopBody
  | recordedScope
  | callee
  deriving DecidableEq, Repr

/-- The words for what is lacking. -/
def Expectation.text : Expectation → String
  | .bracedBody => "a brace-enclosed body"
  | .classBody => "a class body"
  | .className => "an encoded class name"
  | .enumerators => "a brace-enclosed enumerator list"
  | .enumName => "an encoded enum name"
  | .declarator => "a declarator"
  | .functionBody => "a function body"
  | .declaratorName => "a declarator-id"
  | .templatedDeclaration => "a templated declaration"
  | .namespaceName => "an encoded namespace name"
  | .name => "an encoded name"
  | .loopBody => "a loop body"
  | .recordedScope => "a scope recorded by the binder"
  | .callee => "a callee"

/-- A construct that lacks something, and where it is. -/
structure ShapeError where
  construct : Construct
  expected : Expectation
  span : Option Span
  deriving DecidableEq, Repr

namespace ShapeError

/-- The error about a node. -/
def ofNode (node : Node) (construct : Construct) (expected : Expectation) :
    Outcome ShapeError :=
  return ⟨construct, expected, ← node.place⟩

/-- The error in one sentence. -/
def text (error : ShapeError) : String :=
  "malformed " ++ error.construct.label ++ ": expected " ++ error.expected.text

end ShapeError

end CppNames
