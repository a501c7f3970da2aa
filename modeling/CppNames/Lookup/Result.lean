import CppNames.Diagnostic.Basic
import CppNames.Table.Path

namespace CppNames

/-!
# What a lookup finds

A lookup finds a set of symbols, in the order in which it meets them.  Looking into
something that depends on a template parameter finds a dependent set, which is not empty
although it has no symbol.
-/

/-- What a name is looked up for. -/
structure LookupContext where
  /-- The name stands in front of `::`, so objects and functions do not count. -/
  scope : Bool := false
  /-- The lookup searches a namespace that a using-directive nominates. -/
  nominated : Bool := false
  /-- The name stands behind `struct` or the like, so only classes and enumerations
  count. -/
  elaborated : Bool := false
  /-- Only names of types count. -/
  type : Bool := false
  /-- The name is being declared, so a qualified name is not searched through
  using-directives. -/
  declaration : Bool := false
  deriving DecidableEq, Repr

/-- Symbols without repetition, in the order found. -/
structure SymbolSet where
  ids : List SymbolId := []
  /-- Whether something depends on a template parameter. -/
  dependent : Bool := false
  deriving DecidableEq, Repr

namespace SymbolSet

/-- The set of no symbol. -/
def none : SymbolSet := {}

/-- What is found inside something that depends on a template parameter. -/
def ofParameter : SymbolSet := { dependent := true }

/-- The set of the symbols of a list. -/
def ofList (ids : List SymbolId) : SymbolSet := { ids := ids.foldl Region.including [] }

/-- Both sets together, the symbols of the first one in front. -/
def union (left right : SymbolSet) : SymbolSet :=
  ⟨right.ids.foldl Region.including left.ids, left.dependent || right.dependent⟩

/-- Whether nothing was found. -/
def isEmpty (set : SymbolSet) : Bool := set.ids.isEmpty && !set.dependent

/-- The only symbol of a set. -/
def single? (set : SymbolSet) : Option SymbolId :=
  match set.ids with
  | [id] => some id
  | _ => Option.none

end SymbolSet

/-- What a name means, as far as lookup alone can tell. -/
inductive Resolution where
  | unresolved
  | resolved (id : SymbolId)
  /-- Several functions, of which a call chooses one. -/
  | overloaded (ids : List SymbolId)
  /-- Several declarations that are not all functions. -/
  | ambiguous (ids : List SymbolId)
  /-- Something that depends on a template parameter. -/
  | dependent
  deriving DecidableEq, Repr

/-- Whether every one of some symbols is a function, decided from the front. -/
def Table.allFunctions (table : Table) : List SymbolId → Outcome Bool
  | [] => .ok true
  | id :: rest => do
    if (← table.symbol id).isFunction then allFunctions table rest else return false

/-- What a set of symbols means for the name that found it. -/
def SymbolSet.resolution (set : SymbolSet) (table : Table) : Outcome Resolution := do
  if set.dependent then return .dependent
  else
    match set.ids with
    | [] => return .unresolved
    | [id] => return .resolved id
    | ids => return if ← table.allFunctions ids then .overloaded ids else .ambiguous ids

/-- Why a component in front of `::` leads nowhere. -/
inductive LookupError where
  | undefined (name : String)
  | notScope (name : String)
  | ambiguous (name : String) (candidates : List SymbolId)
  deriving DecidableEq, Repr

namespace LookupError

/-- The component that leads nowhere. -/
def name : LookupError → String
  | .undefined name | .notScope name | .ambiguous name _ => name

/-- The error in one sentence. -/
def text : LookupError → String
  | .undefined name => "'" ++ name ++ "' is not declared"
  | .notScope name => "'" ++ name ++ "' is not a namespace or class"
  | .ambiguous name _ => "reference to '" ++ name ++ "' is ambiguous"

/-- The error as a report. -/
def diagnostic (error : LookupError) (table : Table) (file : String) (span : Option Span) :
    Outcome Diagnostic := do
  let made ← match error with
    | .undefined name => pure (Diagnostic.make .cannotFindName [name])
    | .notScope name => pure (Diagnostic.make .notNamespaceOrClass [name])
    | .ambiguous name candidates => do
      pure (Diagnostic.make .ambiguousReference [name, ← table.candidateList candidates])
  return { made with file := some file, span := span }

end LookupError

end CppNames
