import CppNames.Binding.Annotation
import CppNames.Constant.Value
import CppNames.Table.Declare
import CppNames.Tree.Parts

namespace CppNames

/-!
# Binding names

Binding walks over a parse tree in the order of the source and enters every declared
name into a table.  It notes on each node that has a scope of its own which scope that
is, so that later passes enter the same scopes.  Binding stops at a malformed construct;
what was entered before stays entered.
-/

/-- What binding does beyond declaring names. -/
structure BindOptions where
  /-- Whether to warn of member names behind `.` and `->`, which stay unresolved. -/
  reportMemberAccess : Bool := true
  /-- Whether casts and `sizeof` have constant values. -/
  extendedFolding : Bool := false
  deriving DecidableEq, Repr

namespace Binding

/-- What binding has done so far. -/
structure State where
  table : Table
  annotations : Annotations
  /-- The scope of the template header whose declaration comes next. -/
  header : Option ScopeId
  log : Log

/-- Where binding is. -/
structure Surroundings where
  file : String
  options : BindOptions
  /-- The scope that declarations belong to. -/
  current : ScopeId

/-- A step of binding. -/
abbrev Bind (α : Type) := ReaderT Surroundings (EStateM PassError State) α

/-- The result of a computation, or the end of binding where it has none. -/
def answer {α : Type} : Outcome α → Bind α
  | .ok value => return value
  | .error fault => throw (.fault fault)

/-- Stops at a construct that lacks something. -/
def malformed {α : Type} (node : Node) (construct : Construct) (expected : Expectation) :
    Bind α := do
  throw (.shape (← answer (ShapeError.ofNode node construct expected)))

/-- The scope that declarations belong to. -/
def current : Bind ScopeId := return (← read).current

/-- What the table answers to a question. -/
def ask {α : Type} (question : Table → Outcome α) : Bind α := do
  answer (question (← get).table)

/-- The site of the current scope. -/
def site : Bind Site := return ⟨(← get).table, ← current⟩

/-- Changes the table. -/
def change (edit : Table → Table) : Bind Unit :=
  modify fun state => { state with table := edit state.table }

/-- Changes the table by an operation with an answer. -/
def perform {α : Type} (operation : Table → Outcome (Table × α)) : Bind α := do
  let (table, value) ← ask operation
  change fun _ => table
  return value

/-- Notes the scope of a node.  Tokens have no scope. -/
def annotate (node : Node) (scope : ScopeId) : Bind Unit :=
  if node.isCell then
    modify fun state => { state with annotations := (node.id, scope) :: state.annotations }
  else pure ()

/-- Runs a step in a scope. -/
def inScope {α : Type} (scope : ScopeId) (body : Bind α) : Bind α :=
  withReader (fun surroundings => { surroundings with current := scope }) body

/-- Takes the scope of the template header that the declaration at hand belongs to. -/
def takeHeader : Bind (Option ScopeId) := do
  let header := (← get).header
  modify fun state => { state with header := none }
  return header

/-- Adds a scope for a node. -/
def createScope (region : Region) (outer : ScopeId) (node : Tree.NodeId) : Bind ScopeId := do
  let (table, id) := (← get).table.createScope region (some outer) (some node)
  change fun _ => table
  answer id

/-- The scope that a node has from an earlier run, or else a new one. -/
def scopeFor (node : Tree.NodeId) (outer : ScopeId) (region : Region) : Bind ScopeId := do
  match (← get).table.scopeOfNode? node with
  | some scope => return scope
  | none => createScope region outer node

/-- Gives a symbol the scope that it has. -/
def setDefines (symbol : SymbolId) (scope : ScopeId) : Bind Unit :=
  change (·.modifySymbol symbol ({ · with defines := some scope }))

/-! ## Reports -/

/-- A report in the file that is bound. -/
def diagnostic (span : Option Span) (message : Message) (arguments : List String) :
    Bind Diagnostic :=
  return { Diagnostic.make message arguments with file := some (← read).file, span := span }

/-- Adds a report to the log. -/
def record (made : Diagnostic) : Bind Unit :=
  modify fun state => { state with log := state.log ++ [made] }

/-- Reports a problem. -/
def report (span : Option Span) (message : Message) (arguments : List String) : Bind Unit := do
  record (← diagnostic span message arguments)

/-- Reports that a name leads nowhere. -/
def reportLookup (error : LookupError) (span : Option Span) : Bind Unit := do
  let file := (← read).file
  record (← ask (error.diagnostic · file span))

/-- Reports a refused declaration, with a note on the one that is in its way. -/
def reportRefusal (refusal : Table.Refusal) (name : String) (span : Option Span) :
    Bind Unit := do
  let message : Message := if refusal.redefinition then .redefinition else .redeclaration
  let previous ← ask (·.symbol refusal.previous)
  let note ← diagnostic previous.span .previousDeclaration [name]
  let made ← diagnostic span message [name]
  record (made.withRelated note)

/-! ## Declaring -/

/-- Declares a symbol in a scope and reports what is in its way. -/
def declare (scope : ScopeId) (symbol : Symbol) : Bind (Option SymbolId) := do
  let name ← answer symbol.nameText
  match ← perform (·.declare scope symbol) with
  | .ok id => return some id
  | .error refusal =>
    reportRefusal refusal name symbol.span
    return none

/-- Declares a symbol in a scope. -/
def declareQuietly (scope : ScopeId) (symbol : Symbol) : Bind Unit := discard (declare scope symbol)

/-- The scope that the qualifier of a name denotes, and the last component of the name. -/
def declarationTarget (name : Encoding) (span : Option Span) :
    Bind (Option (ScopeId × Encoding)) := do
  let components ← answer name.components
  match components.getLast? with
  | none => return none
  | some last =>
    let scope ← current
    match ← ask (·.lookupScope (.qualified components.dropLast) scope) with
    | .ok (some target) => return some (target, last)
    | .ok none => return none
    | .error error =>
      reportLookup error span
      return none

/-- What a qualified declaration declares, given what its name finds: a member of a class
template is no template itself. -/
def memberKind (table : Table) (found : SymbolSet) (kind : SymbolKind) : Outcome SymbolKind := do
  match kind with
  | .functionTemplate signature defined =>
    let templates ← table.ofKind
      (fun | .functionTemplate .. => true | _ => false) found.ids
    return if templates.isEmpty then .function signature defined else kind
  | _ => return kind

/-- Declares what a qualified name stands for in the scope that its qualifier denotes,
where something has to be declared that it declares again. -/
def declareMember (name : Encoding) (scope : ScopeId) (last : Encoding) (kind : SymbolKind)
    (type : Encoding) (node : Tree.NodeId) (span : Option Span) :
    Bind (Option SymbolId) := do
  let key ← answer last.lookupKey
  let found ← ask (·.lookupQualified scope key { declaration := true })
  let text ← answer name.shown
  if found.isEmpty then
    report span .noDeclarationMatches [text]
    return none
  else
    let kind ← ask (memberKind · found kind)
    let before := (← get).table.symbols.size
    let id ← declare scope (.ofDeclaration key kind type scope node span)
    if before < (← get).table.symbols.size then report span .noDeclarationMatches [text]
    return id

/-- Declares a function or a variable with a simple or qualified name.  The answer holds
its symbol, unless the declaration was refused, and the scope that it belongs to. -/
def declareNamed (name : Encoding) (kind : SymbolKind) (type : Encoding)
    (node : Tree.NodeId) (span : Option Span) : Bind (Option SymbolId × ScopeId) := do
  let scope ← current
  if name.isQualified then
    match ← declarationTarget name span with
    | none => return (none, scope)
    | some (target, last) =>
      return (← declareMember name target last kind type node span, target)
  else
    return (← declare scope (.ofDeclaration name kind type scope node span), scope)

end Binding

end CppNames
