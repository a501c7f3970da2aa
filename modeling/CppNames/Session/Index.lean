import CppNames.Unit.Report

namespace CppNames

/-!
# Linking source texts

An index holds the declarations of many source texts under their qualified names.  A name
that one text uses and does not declare is linked to its declarations in the others.
-/

/-- Where a declaration is: in which report, and which of its declarations. -/
structure IndexEntry where
  unit : Nat
  declaration : Nat
  deriving DecidableEq, Repr

/-- The declarations of many source texts. -/
structure Index where
  /-- All declarations with their qualified names, in order. -/
  entries : List (String × IndexEntry)
  deriving Repr

/-- A declaration that a name is linked to. -/
structure LinkTarget where
  file : String
  kind : SymbolKind
  span : Option Span
  defined : Bool
  deriving DecidableEq, Repr

/-- A name that one source text uses and others declare. -/
structure Link where
  file : String
  name : String
  span : Option Span
  targets : List LinkTarget
  deriving DecidableEq, Repr

namespace Link

/-- The definition that the name is linked to, if there is exactly one. -/
def definition? (link : Link) : Option LinkTarget :=
  match link.targets.filter (·.defined) with
  | [only] => some only
  | _ => none

end Link

namespace Index

/-- The entries of the declarations of one report. -/
def entriesOf (report : Report) (unit : Nat) : List (String × IndexEntry) :=
  report.declarations.zipIdx.map fun (declared, position) =>
    (declared.qualifiedName, ⟨unit, position⟩)

/-- The index of some reports. -/
def ofReports (reports : List Report) : Index :=
  ⟨reports.zipIdx.flatMap fun (report, unit) => entriesOf report unit⟩

/-- The declarations with a given qualified name. -/
def named (index : Index) (name : String) : List IndexEntry :=
  (index.entries.filter (·.1 == name)).map (·.2)

/-- The number of different names. -/
def nameCount (index : Index) : Nat := (index.entries.map (·.1)).eraseDups.length

/-- Whether nothing is declared. -/
def isEmpty (index : Index) : Bool := index.entries.isEmpty

/-- The index in one line. -/
def summary (index : Index) : String :=
  "GlobalIndex \x7b names: " ++ toString index.nameCount ++ " \x7d"

/-- The declaration at an entry as the target of a link. -/
def target? (reports : List Report) (entry : IndexEntry) : Option LinkTarget := do
  let report ← reports[entry.unit]?
  let declared ← report.declarations[entry.declaration]?
  return ⟨report.file, declared.kind, declared.span, declared.defined⟩

/-- The declarations of a name outside one report. -/
def targetsOutside (index : Index) (reports : List Report) (unit : Nat) (name : String) :
    List LinkTarget :=
  ((index.named name).filter (·.unit ≠ unit)).filterMap (target? reports)

/-- The link of a name that a report leaves unresolved, if other texts declare it. -/
def link? (index : Index) (reports : List Report) (unit : Nat) (file : String)
    (use : UnresolvedName) : Option Link :=
  match index.targetsOutside reports unit use.name with
  | [] => none
  | targets => some ⟨file, use.name, use.span, targets⟩

/-- The links of all names that reports leave unresolved. -/
def links (index : Index) (reports : List Report) : List Link :=
  reports.zipIdx.flatMap fun (report, unit) =>
    report.unresolved.filterMap (index.link? reports unit report.file)

end Index

end CppNames
