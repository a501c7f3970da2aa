import CppNames.Encoding.Render
import CppNames.Fault

namespace CppNames
namespace Encoding

/-!
# Taking encodings apart while computing

The parts of an encoding as the later passes need them: a malformed encoding has no
parts, and an overrun leaves the whole computation without an answer.
-/

/-- What an encoding holds, or a default where it is malformed. -/
def partOr {α : Type} (default : α) (read : Except Flaw α) : Outcome α :=
  (Outcome.ofEncoding read).map (·.getD default)

/-- The encoding as readable text. -/
def shown (encoding : Encoding) : Outcome String := partOr "" encoding.readable

/-- The components of a name. -/
def components (encoding : Encoding) : Outcome (List Encoding) := partOr [] encoding.names

/-- The last component of a name. -/
def lastComponent (encoding : Encoding) : Outcome Encoding := partOr empty encoding.lastName

/-- The name of a template-id, and any other encoding unchanged.  A template-id is
declared under its template's name and found under it. -/
def lookupKey (encoding : Encoding) : Outcome Encoding := partOr empty encoding.templateName

/-- The parameters and the result of a function type. -/
def functionParts? (encoding : Encoding) : Outcome (Option (List Encoding × Encoding)) :=
  Outcome.ofEncoding encoding.functionParts

end Encoding
end CppNames
