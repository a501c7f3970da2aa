import CppNames.Typing.Class

namespace CppNames

/-!
# Converting arguments

An argument is converted to the type of its parameter.  The names in the type of an
argument are looked up from the call, those in the type of a parameter from the
function.  Where too little is known of a type, the conversion counts as possible.
-/

/-- How an argument converts to a parameter, the best first. -/
inductive Conversion where
  | exact
  | promotion
  | standard
  /-- The argument has no parameter and is taken by an ellipsis. -/
  | ellipsis
  deriving DecidableEq, Repr

namespace Conversion

/-- The place of a conversion among all of them. -/
def rank : Conversion → Nat
  | .exact => 0
  | .promotion => 1
  | .standard => 2
  | .ellipsis => 3

end Conversion

namespace Table

/-- Whether a class has a base among the classes that are still to be searched or behind
them.  The first argument bounds how many classes are taken up. -/
def reachesWithin (table : Table) (base : ScopeId) :
    Nat → List ScopeId → List ScopeId → Outcome Bool
  | 0, _, _ => .error .endless
  | _ + 1, _, [] => .ok false
  | steps + 1, visited, next :: pending => do
    if next ∈ visited then reachesWithin table base steps visited pending
    else
      let bases := (← table.scope next).region.bases
      if base ∈ bases then return true
      else reachesWithin table base steps (next :: visited) (bases.reverse ++ pending)

/-- A number of classes that no search through base classes takes up. -/
def baseBound (table : Table) : Nat :=
  (table.scopes.toList.flatMap (·.region.bases)).length + 2

/-- Whether a class has another one among its direct and indirect bases. -/
def inherits (table : Table) (derived base : ScopeId) : Outcome Bool :=
  table.reachesWithin base table.baseBound [] [derived]

end Table

namespace Site

/-- A type with the name in it replaced by the type that it stands for, through at most a
given number of type definitions. -/
def canonicalWithin (site : Site) : Nat → Encoding → Outcome Encoding
  | 0, type => .ok type
  | steps + 1, type => do
    let core := type.core
    if core.isName then
      match ← site.namedType? core with
      | none => return type
      | some symbol =>
        match symbol.kind with
        | .typedefName none =>
          if symbol.type = core then return type
          else return type.layers ++ (← canonicalWithin site steps symbol.type)
        | .classType _ | .classTemplate _ | .enumType => return type.layers ++ symbol.type
        | _ => return type
    else return type

/-- A type with the name in it replaced by the type that it stands for. -/
def canonical (site : Site) (type : Encoding) : Outcome Encoding :=
  site.canonicalWithin aliasLimit type

/-- Whether a type, behind its pointers, references and qualifiers, is a parameter of a
template. -/
def isTypeParameter (site : Site) (type : Encoding) : Outcome Bool := do
  let core := type.core
  if core.isSimpleName then
    match ← site.single? core { type := true } with
    | some id => return (← site.table.symbol id).kind = .typeParameter
    | none => return false
  else return false

/-- Whether a type is the name of something that is not known to be a class. -/
def isUnknown (site : Site) (type : Encoding) : Outcome Bool := do
  if type.isName then return (← site.classScope? type).isNone else return false

end Site

namespace Conversion

/-- The site of an argument and the site of its parameter. -/
structure Sites where
  argument : Site
  parameter : Site

/-- Whether the class that an argument names has the class that a parameter names among
its bases. -/
def derives (sites : Sites) (argument parameter : Encoding) : Outcome Bool := do
  let derived ← sites.argument.classScope? argument
  let base ← sites.parameter.classScope? parameter
  match derived, base with
  | some derived, some base => sites.argument.table.inherits derived base
  | _, _ => return false

/-- The conversion where a type is not known well enough to rule it out. -/
def ofUnknown (sites : Sites) (argument parameter : Encoding) :
    Outcome (Option Conversion) := do
  if ← sites.argument.isUnknown argument then return some .standard
  else if ← sites.parameter.isUnknown parameter then return some .standard
  else return none

/-- The conversion between classes, if one derives from the other. -/
def ofClasses (sites : Sites) (argument parameter : Encoding) :
    Outcome (Option Conversion) := do
  if ← derives sites argument parameter then return some .standard
  else ofUnknown sites argument parameter

/-- The conversion between pointers, given what they point to. -/
def ofPointers (sites : Sites) (argument parameter : Encoding) :
    Outcome (Option Conversion) := do
  if argument = parameter then return some .exact
  else if parameter = .builtin 'v' then return some .standard
  else ofClasses sites argument parameter

/-- The conversion between values that are no pointers. -/
def ofValues (sites : Sites) (argument parameter : Encoding) :
    Outcome (Option Conversion) := do
  match argument.arithmeticRank?, parameter.arithmeticRank? with
  | some left, some right =>
    if left = 0 ∧ right = 1 ∧ parameter = .builtin 'i' then return some .promotion
    else if left = 7 ∧ right = 8 then return some .promotion
    else return some .standard
  | _, _ => ofClasses sites argument parameter

/-- The conversion between two types without references and type definitions. -/
def ofCanonical (sites : Sites) (argument parameter : Encoding) :
    Outcome (Option Conversion) := do
  if argument = parameter then return some .exact
  else
    match argument.target?, parameter.target? with
    | some left, some right => ofPointers sites left.stripCv right.stripCv
    | some _, none => return if parameter = .builtin 'b' then some .standard else none
    | none, some _ => return none
    | none, none => ofValues sites argument parameter

/-- The conversion of an argument to a parameter, if there is one.  An argument whose
type is not known converts to anything. -/
def find? (sites : Sites) (argument : Option Encoding) (parameter : Encoding) :
    Outcome (Option Conversion) := do
  match argument with
  | none => return some .standard
  | some argument =>
    let parameter := (← sites.parameter.canonical parameter.withoutReference).stripCv
    if ← sites.parameter.isTypeParameter parameter then return some .exact
    else ofCanonical sites (← sites.argument.canonical argument.decayed) parameter

end Conversion

end CppNames
