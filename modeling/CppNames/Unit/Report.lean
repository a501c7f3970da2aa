import CppNames.Reference.Basic
import CppNames.Token.Basic
import CppNames.Typing.Class

namespace CppNames

/-!
# Reports on source texts

A report holds what is left of the analysis of one source text once its tree and its
table are gone: the problems, the declarations that other texts can use, and the names
that were declared nowhere.
-/

/-- A declaration in a namespace or a class. -/
structure Declared where
  qualifiedName : String
  kind : SymbolKind
  /-- The type of an object or a function; other declarations have none. -/
  typeText : String
  span : Option Span
  defined : Bool
  deriving DecidableEq, Repr

/-- A use of a name that is declared nowhere. -/
structure UnresolvedName where
  name : String
  span : Option Span
  deriving DecidableEq, Repr

/-- What the analysis of one source text reports. -/
structure Report where
  file : String
  log : Log
  /-- The tokens that the grammar does not fit. -/
  misfits : List Token
  declarations : List Declared
  unresolved : List UnresolvedName
  referenceCount : Nat
  deriving Repr

namespace Report

/-- The first declaration with a given qualified name. -/
def declaration? (report : Report) (name : String) : Option Declared :=
  report.declarations.find? (·.qualifiedName == name)

/-- The uses of names that are declared nowhere. -/
def unresolvedAmong (references : List Reference) : List UnresolvedName :=
  (references.filter (·.resolution = .unresolved)).map fun use => ⟨use.name, use.span⟩

end Report

namespace Table

/-- Whether a symbol is declared directly in a namespace or a class. -/
def isDeclaredOutside (table : Table) (id : SymbolId) : Outcome Bool := do
  let symbol ← table.symbol id
  let region := (← table.scope symbol.scope).region
  return region.isNamespace || region.isClass

/-- The text of the type of an object or a function. -/
def typeText (symbol : Symbol) : Outcome String :=
  symbol.valueType?.elim (.ok "") Encoding.shown

/-- A symbol as other source texts see it. -/
def declared (table : Table) (id : SymbolId) : Outcome Declared := do
  let symbol ← table.symbol id
  let name ← table.qualifiedName id
  return ⟨name, symbol.kind, ← typeText symbol, symbol.span, symbol.isDefined⟩

/-- The declarations of a table that other source texts can use. -/
def declarations (table : Table) : Outcome (List Declared) := do
  let ids ← table.symbolIds.filterM table.isDeclaredOutside
  ids.mapM table.declared

end Table

end CppNames
