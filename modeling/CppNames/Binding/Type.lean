import CppNames.Binding.State

namespace CppNames
namespace Binding

/-!
# Binding namespaces, classes and enumerations

A namespace that is opened again keeps its scope.  A class without a body declares its
name only where it stands alone or where no class of that name is visible.
-/

/-- A pass into a node that lies deeper. -/
abbrev Visit := Node → Bind Unit

/-- Binds the elements of a list in order. -/
def visitElements (visit : Visit) (node : Node) : Bind Unit := node.present.forM visit

/-! ## Namespaces -/

/-- The name that all namespaces without a name share. -/
def anonymousNamespace : Encoding := .simpleName "<anonymous>"

/-- The scope of the fragment of a namespace that declares a symbol. -/
def fragmentScope (node : Tree.NodeId) (name : Encoding) (outer : ScopeId) (id : SymbolId) :
    Bind ScopeId := do
  match (← ask (·.symbol id)).defines with
  | some scope =>
    change fun table => (table.addFragment scope node).setNodeScope node scope
    return scope
  | none =>
    let scope ← createScope (.namespaceBody name [node] []) outer node
    setDefines id scope
    return scope

/-- The scope of a namespace whose declaration is refused: that of the namespace which
was there before, or one of its own. -/
def refusedScope (node : Tree.NodeId) (name : Encoding) (outer : ScopeId)
    (previous : SymbolId) : Bind ScopeId := do
  let symbol ← ask (·.symbol previous)
  match if symbol.kind = .namespaceName then symbol.defines else none with
  | some scope => return scope
  | none => scopeFor node outer (.namespaceBody name [node] [])

/-- Declares a namespace and answers its scope. -/
def namespaceScope (node : Node) (name : Encoding) : Bind ScopeId := do
  let outer ← current
  let span ← answer (node.second.orElse node.first).place
  let symbol := Symbol.ofDeclaration name .namespaceName name outer node.id span
  match ← perform (·.declare outer symbol) with
  | .ok id => fragmentScope node.id name outer id
  | .error refusal =>
    reportRefusal refusal (← answer name.shown) span
    refusedScope node.id name outer refusal.previous

/-- Binds a namespace.  The members of a namespace without a name are visible around
it. -/
def bindNamespace (visit : Visit) (node : Node) : Bind Unit := do
  let body := node.third
  if body.isA .brace then
    let scope ← namespaceScope node (node.name?.getD anonymousNamespace)
    annotate node scope
    if node.name?.isNone then
      let outer ← current
      discard (perform (·.addNominated outer scope))
    inScope scope (visitElements visit body)
  else malformed node .namespaceSpec .bracedBody

/-! ## Classes -/

/-- How a class specifier is used. -/
inductive ClassUse where
  /-- It stands alone, and declares its class here. -/
  | forward
  /-- It names a visible class, or declares one where none is visible. -/
  | elaborated
  deriving DecidableEq, Repr

/-- The first of some symbols that a node declares. -/
def declaredHere? (node : Tree.NodeId) (found : SymbolSet) : Bind (Option SymbolId) :=
  ask (·.declaredBy? node found.ids)

/-- Whether a class specifier without a body only names a class.  If it does, nothing is
to be declared, and whatever is wrong with the name is reported. -/
def namesOnly (specifier : Node) (name : Encoding) (span : Option Span) : Bind Bool := do
  match ← answer ((← site).lookup name { elaborated := true }) with
  | .error error =>
    reportLookup error span
    return true
  | .ok found =>
    if !found.isEmpty then
      match ← declaredHere? specifier.id found with
      | some previous => reportRefusal ⟨previous, false⟩ (← answer name.shown) span
      | none => pure ()
      return true
    else if name.isQualified then
      report span .cannotFindName [← answer name.shown]
      return true
    else return false

/-- A class declared by a specifier. -/
structure DeclaredClass where
  symbol : Option SymbolId
  /-- The scope that it belongs to. -/
  scope : ScopeId
  /-- The name that it has there. -/
  key : Encoding

/-- Declares a class under its simple name, or in the scope that its qualifier
denotes. -/
def declareClass (specifier : Node) (name : Encoding) (kind : SymbolKind)
    (span : Option Span) : Bind DeclaredClass := do
  let scope ← current
  let target ← if name.isQualified then declarationTarget name span
    else pure (some (scope, name))
  match target with
  | none => return ⟨none, scope, ← answer name.lastComponent⟩
  | some (scope, key) =>
    let symbol := Symbol.ofDeclaration key kind key scope specifier.id span
    match ← perform (·.declare scope symbol) with
    | .ok id => return ⟨some id, scope, key⟩
    | .error refusal =>
      reportRefusal refusal (← answer key.shown) span
      return ⟨none, scope, key⟩

/-- Binds one base class of a class, looked up from a scope.  A base that depends on a
template parameter has no scope yet. -/
def bindBase (scope source : ScopeId) (base : Node) : Bind Unit := do
  let named := base.last
  match named.encodedName? with
  | none => pure ()
  | some name =>
    let span ← answer named.place
    match ← ask (·.lookupScope name source) with
    | .ok (some target) =>
      if (← ask (·.scope target)).region.isClass then
        discard (perform (·.addBase scope target))
      else report span .notNamespaceOrClass [← answer name.shown]
    | .ok none => pure ()
    | .error error => reportLookup error span

/-- Binds the base classes of a class. -/
def bindBases (scope source : ScopeId) (bases : Node) : Bind Unit :=
  (bases.present.filter (!·.isLeaf)).forM (bindBase scope source)

/-- Binds the body of a class. -/
def bindClassBody (visit : Visit) (specifier body : Node) (header : Option ScopeId)
    (declared : DeclaredClass) : Bind Unit := do
  let outer := header.getD declared.scope
  let scope ← scopeFor specifier.id outer (.classBody declared.key specifier.id [])
  annotate specifier scope
  bindBases scope outer specifier.third
  match declared.symbol with
  | some id => setDefines id scope
  | none => pure ()
  inScope scope (visitElements visit body)

/-- Binds a class specifier, which belongs to a template header if there is one. -/
def bindClass (visit : Visit) (specifier : Node) (use : ClassUse)
    (header : Option ScopeId) : Bind Unit := do
  let body := specifier.nth 3
  if !body.isNil && !body.isA .classBody then malformed specifier .classSpec .classBody
  match specifier.name? with
  | none => malformed specifier .classSpec .className
  | some name =>
    let span ← answer (specifier.second.orElse specifier.first).place
    let mayName := body.isNil && use == .elaborated && header.isNone
    let done ← if mayName then namesOnly specifier name span else pure false
    if !done then
      let defined := !body.isNil
      let kind : SymbolKind :=
        if header.isSome then .classTemplate defined else .classType defined
      let declared ← declareClass specifier name kind span
      if defined then bindClassBody visit specifier body header declared

/-! ## Enumerations -/

/-- The name of an enumerator and the expression for its value, which may be absent. -/
def enumeratorParts? (item : Node) : Option (Node × Node) :=
  if item.isToken .identifier then some (item, .nil)
  else if item.isA .cons && !item.first.isNil then some (item.first, item.third)
  else none

/-- The value that an expression gives to an enumerator.  An expression without a value
is reported. -/
def enumeratorValue (expression : Node) : Bind (Option Int64) := do
  let value ← answer
    (Constant.evaluate (← site) (← read).options.extendedFolding expression)
  if value.isNone then
    report (← answer expression.place) .notConstantExpression [expression.joined]
  return value

/-- The value that follows a value, unless it is the greatest. -/
def successor? (value : Int64) : Option Int64 :=
  if value.toInt < Constant.greatest then some (value + 1) else none

/-- Declares one enumerator.  Without an expression it has the value that follows the one
before it.  The answer is the value that follows. -/
def bindEnumerator (type : Encoding) (next : Option Int64) (item : Node) :
    Bind (Option Int64) := do
  match enumeratorParts? item with
  | none => return next
  | some (named, expression) =>
    let value ← if expression.isNil then pure next else enumeratorValue expression
    let scope ← current
    declareQuietly scope (.ofDeclaration (.simpleName named.text) (.enumerator value) type
      scope named.id (named.token?.map (·.span)))
    return value.bind successor?

/-- Whether an enumeration of a name is visible. -/
def enumVisible (name : Encoding) : Bind Bool := do
  let found ← answer ((← site).found? name { elaborated := true })
  return found.any (!·.isEmpty)

/-- Binds an enumeration and its enumerators. -/
def bindEnum (specifier : Node) : Bind Unit := do
  let body := specifier.third
  if !body.isNil && !body.isA .brace then malformed specifier .enumSpec .enumerators
  match specifier.name? with
  | none => malformed specifier .enumSpec .enumName
  | some name =>
    let named := specifier.second
    let span ← answer named.place
    let known ← if !named.isNil && body.isNil then enumVisible name else pure false
    if !known then
      if !named.isNil then
        let scope ← current
        declareQuietly scope (.ofDeclaration name .enumType name scope specifier.id span)
      discard (body.second.present.foldlM (bindEnumerator name) (some 0))

/-! ## Type specifiers -/

/-- The classes and enumerations that the words of a type specify. -/
def typeSpecifiers (words : Node) : List Node :=
  words.typeWords.filter fun word => word.isA .classSpec || word.isA .enumSpec

/-- Binds a class or an enumeration. -/
def bindSpecifier (visit : Visit) (use : ClassUse) (header : Option ScopeId)
    (specifier : Node) : Bind Unit :=
  if specifier.isA .enumSpec then bindEnum specifier else bindClass visit specifier use header

/-- Binds the classes and enumerations that the words of a type specify. -/
def bindType (visit : Visit) (words : Node) (use : ClassUse) (header : Option ScopeId) :
    Bind Unit :=
  (typeSpecifiers words).forM (bindSpecifier visit use header)

end Binding
end CppNames
