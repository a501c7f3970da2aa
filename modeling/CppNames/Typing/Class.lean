import CppNames.Lookup.Site
import CppNames.Typing.ValueType

namespace CppNames

/-!
# From types to classes

A type names a class directly, or through type definitions.  Type definitions may
depend on one another in a circle when a name is declared twice, so only so many of
them are followed.
-/

/-- How many type definitions in a row are followed. -/
def aliasLimit : Nat := 16

namespace Symbol

/-- The type of a symbol that is used as a value. -/
def valueType? (symbol : Symbol) : Option Encoding :=
  if symbol.kind.isValue || symbol.isFunction then some symbol.type else none

end Symbol

namespace Site

/-- The symbol that the name of a type stands for, behind type definitions of names. -/
def namedType? (site : Site) (type : Encoding) : Outcome (Option Symbol) := do
  match ← site.first? type { type := true } with
  | none => return none
  | some id => return some (← site.table.symbol (← site.table.aliased id))

/-- The scope of the class that a type names, for at most a given number of type
definitions of other types. -/
def classScopeWithin (site : Site) : Nat → Encoding → Outcome (Option ScopeId)
  | 0, _ => .ok none
  | steps + 1, type => do
    if type.isName then
      match ← site.namedType? type with
      | none => return none
      | some symbol =>
        match symbol.kind with
        | .classType _ | .classTemplate _ => return symbol.defines
        | .typedefName none => classScopeWithin site steps symbol.type.stripCv
        | _ => return none
    else return none

/-- The scope of the class that a type names. -/
def classScope? (site : Site) (type : Encoding) : Outcome (Option ScopeId) :=
  site.classScopeWithin aliasLimit type.stripCv

/-- The scope of the class of an object of a type, or of what a pointer of that type
points to. -/
def objectClass? (site : Site) (arrow : Bool) (type : Encoding) : Outcome (Option ScopeId) :=
  let object := if arrow then type.bare.target?.map (·.stripCv) else some type.bare
  object.elim (.ok none) site.classScope?

/-- The members of a class that a name finds. -/
def membersNamed (site : Site) (scope : ScopeId) (member : Encoding) : Outcome SymbolSet := do
  site.table.lookupQualified scope (← (← member.lastComponent).lookupKey) {}

end Site

end CppNames
