import CppNames.Binding.Annotation
import CppNames.Lookup.Result

namespace CppNames

/-!
# References

A reference is one use of a name together with what the name means there.
-/

/-- One use of a name. -/
structure Reference where
  span : Option Span
  /-- The name as written, such as `N::f`. -/
  name : String
  resolution : Resolution
  /-- Whether the name is the callee of a call. -/
  isCall : Bool
  deriving DecidableEq, Repr

/-- What a pass over the uses of names finds, in the order of the source. -/
structure Findings where
  references : List Reference := []
  log : Log := []
  deriving Repr

namespace Findings

/-- The findings of one part of a source text and of the part behind it. -/
def append (front back : Findings) : Findings :=
  ⟨front.references ++ back.references, front.log ++ back.log⟩

instance : Append Findings := ⟨append⟩

/-- The findings of the parts of a source text, one behind the other. -/
def concat (parts : List Findings) : Findings :=
  ⟨parts.flatMap (·.references), parts.flatMap (·.log)⟩

@[simp] theorem references_append (front back : Findings) :
    (front ++ back).references = front.references ++ back.references := rfl

@[simp] theorem references_concat (parts : List Findings) :
    (concat parts).references = parts.flatMap (·.references) := rfl

end Findings

end CppNames
