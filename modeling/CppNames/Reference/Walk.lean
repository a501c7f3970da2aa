import CppNames.Reference.Resolve

namespace CppNames
namespace Reference

/-!
# Finding the uses of names

After binding, a second pass enters the scopes that binding noted and finds the names
that are used in expressions, initializers and calls, and the names of types in function
bodies.  Names that are declared, members behind `.` and `->`, and names in type
definitions and using-declarations are no uses.
-/

/-- What the pass knows besides the tree. -/
structure Setting where
  table : Table
  annotations : Annotations
  file : String
  /-- Whether a call chooses one of the functions that its callee names. -/
  resolveCalls : Bool

/-- What visiting a part of the tree gives. -/
abbrev Step := Except PassError Findings

/-- A visit to a node inside a scope. -/
abbrev Visit := ScopeId → Node → Step

namespace Setting

/-- The site of a scope. -/
def site (setting : Setting) (scope : ScopeId) : Site := ⟨setting.table, scope⟩

end Setting

/-- The result of a computation, or the end of the pass where it has none. -/
def answer {α : Type} : Outcome α → Except PassError α
  | .ok value => .ok value
  | .error fault => .error (.fault fault)

/-- Stops at a construct that lacks something. -/
def malformed {α : Type} (node : Node) (construct : Construct) (expected : Expectation) :
    Except PassError α := do
  throw (.shape (← answer (ShapeError.ofNode node construct expected)))

/-- The scope that binding noted on a node. -/
def Setting.scopeOf (setting : Setting) (node : Node) (construct : Construct) :
    Except PassError ScopeId :=
  match setting.annotations.scope? node with
  | some scope => .ok scope
  | none => malformed node construct .recordedScope

/-- Visits some nodes in order. -/
def visitAll (visit : Visit) (scope : ScopeId) (nodes : List Node) : Step := do
  return .concat (← nodes.mapM (visit scope))

/-- Visits the elements of a list in order. -/
def visitElements (visit : Visit) (scope : ScopeId) (node : Node) : Step :=
  visitAll visit scope node.present

/-- Resolves a name by lookup. -/
def lookUp (setting : Setting) (context : LookupContext) (scope : ScopeId) (use : Use) : Step :=
  answer (ofUse (setting.site scope) setting.file context use)

/-! ## Declarations -/

/-- Whether a scope lies in a function body, so that the names of types count. -/
def bodyRegion : Region → Option Bool
  | .functionBody .. | .block .. => some true
  | .namespaceBody .. | .classBody .. => some false
  | _ => none

/-- Whether a site lies in a function body. -/
def inFunctionBody (site : Site) : Outcome Bool := do
  return (← site.innermost? bodyRegion).getD false

/-- Visits one word of a type: a class or an enumeration with all that is in it, or the
name of a type. -/
def visitTypeWord (setting : Setting) (visit : Visit) (scope : ScopeId) (word : Node) : Step := do
  if word.isA .classSpec || word.isA .enumSpec then visit scope word
  else if ← answer (inFunctionBody (setting.site scope)) then
    match word.calleeName? with
    | some name => lookUp setting { type := true } scope (← answer (Use.ofNode name word))
    | none => return {}
  else return {}

/-- Visits the words of a type. -/
def visitType (setting : Setting) (visit : Visit) (scope : ScopeId) (words : Node) : Step :=
  visitAll (visitTypeWord setting visit) scope words.typeWords

/-- Visits one element of a declarator.  The parameters of a function are visited in the
scope that they are declared in. -/
def visitDeclaratorElement (visit : Visit) (prototype : Option ScopeId) : Visit :=
  fun scope element =>
    match prototype with
    | some inner =>
      if element.isA .cons then visitElements visit inner element else visit scope element
    | none => visit scope element

/-- Visits a declarator without the name that it declares. -/
def visitDeclarator (setting : Setting) (visit : Visit) (scope : ScopeId) (declarator : Node) :
    Step :=
  visitAll (visitDeclaratorElement visit (setting.annotations.scope? declarator)) scope
    (declarator.present.eraseP (·.isDeclaredName))

/-- Visits the initializers of a constructor and the body of a function. -/
def visitBody (visit : Visit) (scope : ScopeId) (node body : Node) : Step := do
  let members := node.nth 3
  let initializers ← if members.isNil || members.isA .block then pure {} else visit scope members
  return initializers ++ (← visitElements visit scope body)

/-- Visits the definition of a function. -/
def visitFunction (setting : Setting) (visit : Visit) (scope : ScopeId) (node : Node) : Step := do
  let body := node.last
  if body.isA .block then
    let head ← visitDeclarator setting visit scope node.third
    let inner ← setting.scopeOf node .declaration
    return head ++ (← visitBody visit inner node body)
  else malformed node .declaration .functionBody

/-- Visits the declarators of a declaration. -/
def visitDeclarators (setting : Setting) (visit : Visit) (scope : ScopeId) (list : Node) : Step :=
  visitAll (visitDeclarator setting visit) scope (list.present.filter (·.isA .declarator))

/-- Visits a declaration or the definition of a function. -/
def visitDeclaration (setting : Setting) (visit : Visit) (scope : ScopeId) (node : Node) :
    Step := do
  let types ← visitType setting visit scope node.second
  let rest ← if node.third.isA .declarator then visitFunction setting visit scope node
    else visitDeclarators setting visit scope node.third
  return types ++ rest

/-- Visits the values of the enumerators of an enumeration. -/
def visitEnumerators (visit : Visit) (scope : ScopeId) (node : Node) : Step :=
  visitAll visit scope ((node.third.second.present.filter (·.isA .cons)).map (·.third))

/-- Visits the body of a class, if it has one. -/
def visitClass (setting : Setting) (visit : Visit) (node : Node) : Step := do
  let body := node.nth 3
  if body.isNil then return {}
  else visitElements visit (← setting.scopeOf node .classSpec) body

/-! ## Expressions -/

/-- Visits a call. -/
def visitCall (setting : Setting) (visit : Visit) (scope : ScopeId) (node : Node) : Step := do
  let callee := node.first
  if callee.isNil then malformed node .funcallExpr .callee
  else
    let called ← match callee.calleeName? with
      | some name =>
        if setting.resolveCalls then
          let use ← answer (Use.ofNode name callee)
          answer (ofCall (setting.site scope) setting.file node use)
        else visit scope callee
      | none => visit scope callee
    return called ++ (← visit scope node.third)

/-- Visits a token in an expression. -/
def visitToken (setting : Setting) (scope : ScopeId) (token : Token) : Step :=
  if token.kind = .identifier then
    lookUp setting {} scope (.ofToken (.simpleName token.text) token)
  else .ok {}

/-- Visits a name of several words in an expression. -/
def visitName (setting : Setting) (scope : ScopeId) (node : Node) : Step :=
  match node.name? with
  | some name => do lookUp setting {} scope (← answer (Use.ofNode name node))
  | none => .ok {}

/-! ## Nodes -/

/-- Visits a node in a scope, given how to visit the nodes inside it. -/
def visitNode (setting : Setting) (visit : Visit) (scope : ScopeId) (node : Node) : Step :=
  match node.construct? with
  | none =>
    match node.token? with
    | some token => visitToken setting scope token
    | none => .ok {}
  | some construct =>
    match construct with
    | .namespaceSpec => do
      visitElements visit (← setting.scopeOf node .namespaceSpec) node.third
    | .classSpec => visitClass setting visit node
    | .enumSpec => visitEnumerators visit scope node
    | .declaration => visitDeclaration setting visit scope node
    | .declarator => visitDeclarator setting visit scope node
    | .parameterDeclaration => visit scope node.third
    | .templateDecl => do visit (← setting.scopeOf node .templateDecl) (node.nth 4)
    | .block | .forStatement => do
      visitElements visit (← setting.scopeOf node construct) node
    | .typedefDecl | .usingDirective | .usingDeclaration | .accessSpec | .typeId => .ok {}
    | .name => visitName setting scope node
    | .funcallExpr => visitCall setting visit scope node
    | .dotMemberExpr | .arrowMemberExpr => visit scope node.first
    | .castExpr | .newExpr => visit scope (node.nth 3)
    | .fstyleCastExpr | .typeidExpr => visit scope node.third
    | .sizeofExpr => if node.length = 2 then visit scope node.second else .ok {}
    | _ => visitElements visit scope node

/-- Visits a node of at most a given size.  An absent node has nothing to find. -/
def visitWithin (setting : Setting) : Nat → Visit
  | 0, _, _ => .ok {}
  | size + 1, scope, node => visitNode setting (visitWithin setting size) scope node

end Reference

/-- Finds the uses of names in a tree that was bound into a table. -/
def findReferences (setting : Reference.Setting) (tree : Node) : Except PassError Findings :=
  Reference.visitElements (Reference.visitWithin setting tree.size) Table.global tree

end CppNames
