import CppNames.Binding.Declaration

namespace CppNames
namespace Binding

/-!
# Binding a tree

Using-directives and using-declarations make names visible that are declared elsewhere.
Statements and expressions are searched for further declarations and for blocks, which
have scopes of their own.
-/

/-! ## Using -/

/-- Binds a using-directive. -/
def bindUsingDirective (node : Node) : Bind Unit := do
  match node.name? with
  | none => malformed node .usingDirective .namespaceName
  | some name =>
    let span ← answer node.third.place
    let scope ← current
    if (← ask (·.scope scope)).region.isClass then report span .usingDirectiveInClass []
    else
      let text ← answer name.shown
      match ← ask (·.lookupScope name scope) with
      | .ok (some target) =>
        if (← ask (·.scope target)).region.isNamespace then
          discard (perform (·.addNominated scope target))
        else report span .notNamespace [text]
      | .ok none => report span .notNamespace [text]
      | .error (.notScope _) => report span .notNamespace [text]
      | .error error => reportLookup error span

/-- Whether two symbols cannot both be visible under one name. -/
def exclude (table : Table) (left right : SymbolId) : Outcome Bool := do
  let left ← table.symbol left
  let right ← table.symbol right
  if left.isFunction && right.isFunction then return false
  else return left.isTypeName == right.isTypeName

/-- The first of some symbols that keeps a symbol from becoming visible beside them. -/
def obstacle? (table : Table) (id : SymbolId) : List SymbolId → Outcome (Option SymbolId)
  | [] => .ok none
  | existing :: rest => do
    if existing = id then return some existing
    else if ← exclude table existing id then return some existing
    else obstacle? table id rest

/-- Makes one symbol visible in the current scope. -/
def bindUsed (name key : Encoding) (span : Option Span) (id : SymbolId) : Bind Unit := do
  let scope ← current
  let existing := (← ask (·.scope scope)).named key
  match ← ask (obstacle? · id existing) with
  | some previous => reportRefusal ⟨previous, false⟩ (← answer name.shown) span
  | none => discard (perform (·.makeVisible scope key id))

/-- Binds a using-declaration. -/
def bindUsingDeclaration (node : Node) : Bind Unit := do
  match node.name? with
  | none => malformed node .usingDeclaration .name
  | some name =>
    let span ← answer node.second.place
    match ← answer ((← site).lookup name {}) with
    | .error error => reportLookup error span
    | .ok found =>
      if found.dependent then pure ()
      else if found.isEmpty then report span .cannotFindName [← answer name.shown]
      else
        let key ← answer (← answer name.lastComponent).lookupKey
        found.ids.forM (bindUsed name key span)

/-! ## Statements and expressions -/

/-- Binds the elements of a block in a scope of its own. -/
def bindBlock (visit : Visit) (node : Node) : Bind Unit := do
  let scope ← scopeFor node.id (← current) (.block node.id [])
  annotate node scope
  inScope scope (visitElements visit node)

/-- Binds a loop whose first statement may declare names for the loop. -/
def bindFor (visit : Visit) (node : Node) : Bind Unit :=
  if (node.nth 7).isNil then malformed node .forStatement .loopBody else bindBlock visit node

/-- Binds the object of a member access.  The member is not resolved. -/
def bindMemberAccess (visit : Visit) (node : Node) : Bind Unit := do
  if (← read).options.reportMemberAccess then
    report (← answer node.third.place) .memberAccessNotResolved [node.third.joined]
  if !node.first.isNil then visit node.first

/-! ## Nodes -/

/-- Binds a node, given how to bind the nodes inside it. -/
def bindNode (visit : Visit) (node : Node) : Bind Unit :=
  match node.construct? with
  | none => pure ()
  | some construct =>
    match construct with
    | .namespaceSpec => bindNamespace visit node
    | .classSpec => bindClass visit node .elaborated none
    | .enumSpec => bindEnum node
    | .declaration => bindDeclaration visit node
    | .typedefDecl => bindTypedef visit node
    | .templateDecl => bindTemplate visit node
    | .usingDirective => bindUsingDirective node
    | .usingDeclaration => bindUsingDeclaration node
    | .block => bindBlock visit node
    | .forStatement => bindFor visit node
    | .dotMemberExpr | .arrowMemberExpr => bindMemberAccess visit node
    | _ => visitElements visit node

/-- Binds a node of at most a given size. -/
def bindWithin : Nat → Node → Bind Unit
  | 0, _ => throw (.fault .endless)
  | size + 1, node => bindNode (bindWithin size) node

/-- Binds the declarations of a tree. -/
def bindTree (tree : Node) : Bind Unit := visitElements (bindWithin tree.size) tree

end Binding

/-- A table and the scopes that binding a tree into it notes on the tree. -/
structure Bound where
  table : Table := .initial
  annotations : Annotations := []

/-- Binds a tree into a table.  The answer is what was reported, or why binding stopped;
in either case the table keeps what was entered. -/
def bind (file : String) (options : BindOptions) (tree : Node) (bound : Bound) :
    Bound × Except PassError Log :=
  let surroundings : Binding.Surroundings := ⟨file, options, Table.global⟩
  match Binding.bindTree tree surroundings ⟨bound.table, bound.annotations, none, []⟩ with
  | .ok _ state => (⟨state.table, state.annotations⟩, .ok state.log)
  | .error error state => (⟨state.table, state.annotations⟩, .error error)

end CppNames
