import CppNames.Lookup.Name

namespace CppNames

/-!
# Where names are used

An expression means something only at a site: a table and the scope in it from which the
names of the expression are looked up.
-/

/-- A scope of a table, from which names are looked up. -/
structure Site where
  table : Table
  scope : ScopeId

namespace Site

/-- Looks a name up at the site. -/
def lookup (site : Site) (name : Encoding) (context : LookupContext) :
    Outcome (Except LookupError SymbolSet) :=
  site.table.lookup name site.scope context

/-- The symbols that a name finds at the site; nothing where a component leads
nowhere. -/
def found? (site : Site) (name : Encoding) (context : LookupContext) :
    Outcome (Option SymbolSet) := do
  return (← site.lookup name context).toOption

/-- The only symbol that a name finds at the site. -/
def single? (site : Site) (name : Encoding) (context : LookupContext) :
    Outcome (Option SymbolId) := do
  return (← site.found? name context).bind SymbolSet.single?

/-- The first symbol that a name finds at the site. -/
def first? (site : Site) (name : Encoding) (context : LookupContext) :
    Outcome (Option SymbolId) := do
  return (← site.found? name context).bind (·.ids.head?)

/-- What the innermost one of the scopes around the site answers that has an answer. -/
def innermost? {α : Type} (site : Site) (question : Region → Option α) :
    Outcome (Option α) := do
  return (← site.table.enclosing site.scope).findSome? fun (_, scope) => question scope.region

end Site

end CppNames
