import CppNames.Binding.Type

namespace CppNames
namespace Binding

/-!
# Binding declarations

A declarator declares a function if its type is one, and else a variable.  A function
gets a scope for its parameters and, where it is defined, one for its body.
-/

/-- The storage classes and specifiers that matter to binding. -/
structure Storage where
  isExtern : Bool
  isStatic : Bool
  isFriend : Bool
  deriving DecidableEq, Repr

/-- The storage that a list of specifiers gives. -/
def Storage.ofSpecifiers (specifiers : Node) : Storage where
  isExtern := specifiers.hasToken .kwExtern
  isStatic := specifiers.hasToken .kwStatic
  isFriend := specifiers.hasToken .kwFriend

/-! ## Functions -/

/-- Whether a parameter is a single `void` without a name. -/
def isVoidParameter (parameter : Node) : Bool :=
  parameter.name?.isNone && parameter.type? == some (.builtin 'v')

/-- The signature with one more element of a parameter list. -/
def addParameter (signature : Signature) (element : Node) : Signature :=
  if element.isToken .ellipsis then { signature with ellipsis := true }
  else if element.isA .parameterDeclaration && !isVoidParameter element then
    { signature with
      parameters := signature.parameters + 1
      defaults := signature.defaults + if element.third.hasToken .equals then 1 else 0 }
  else signature

/-- The signature of a parameter list. -/
def signatureOf (parameters : Node) : Signature :=
  parameters.present.foldl addParameter ⟨0, 0, false⟩

/-- What a function declarator declares. -/
def functionKind (parameters : Node) (isTemplate defined : Bool) : SymbolKind :=
  if isTemplate then .functionTemplate (signatureOf parameters) defined
  else .function (signatureOf parameters) defined

/-- The scope of the parameters of a declarator. -/
def prototypeScope (declarator : Node) (outer : ScopeId) : Bind ScopeId := do
  let scope ← scopeFor declarator.id outer (.prototype declarator.id)
  annotate declarator scope
  return scope

/-- Declares one parameter and binds what its declarator holds. -/
def bindParameter (visit : Visit) (scope : ScopeId) (parameter : Node) : Bind Unit := do
  let declarator := parameter.third
  match parameter.name? with
  | some name =>
    let span ← answer declarator.declaredPlace
    declareQuietly scope (.ofDeclaration name (.object true) (parameter.type?.getD .empty)
      scope parameter.id span)
  | none => pure ()
  visitElements visit declarator

/-- Declares the parameters of a list. -/
def bindParameters (visit : Visit) (parameters : Node) (scope : ScopeId) : Bind Unit :=
  inScope scope
    ((parameters.present.filter (·.isA .parameterDeclaration)).forM (bindParameter visit scope))

/-- Binds the declarator of a function that is not defined here.  A friend belongs to the
namespace around the class and is not declared in it. -/
def bindPrototype (visit : Visit) (declarator : Node) (name type : Encoding)
    (span : Option Span) (storage : Storage) (header : Option ScopeId) : Bind Unit :=
  if storage.isFriend then pure ()
  else do
    let parameters := declarator.parameterList
    let kind := functionKind parameters header.isSome false
    let (_, scope) ← declareNamed name kind type declarator.id span
    let prototype ← prototypeScope declarator (header.getD scope)
    bindParameters visit parameters prototype

/-- The scope of a function body. -/
def functionScope (node declarator body : Node) (name : Encoding) (outer : ScopeId) :
    Bind (ScopeId × ScopeId) := do
  let prototype ← prototypeScope declarator outer
  let key ← answer (← answer name.lastComponent).lookupKey
  let scope ← scopeFor node.id outer (.functionBody key node.id (some prototype) [])
  annotate node scope
  annotate body scope
  change (·.setNodeScope body.id scope)
  return (prototype, scope)

/-- Binds the initializers of a constructor and the statements of a body. -/
def bindFunctionBody (visit : Visit) (node body : Node) : Bind Unit := do
  let members := node.nth 3
  if !members.isNil && !members.isA .block then visit members
  visitElements visit body

/-- Binds the definition of a function with a name.  A template header whose function is
defined outside its class moves into the class. -/
def bindDefinition (visit : Visit) (node declarator body : Node) (name : Encoding)
    (header : Option ScopeId) : Bind Unit := do
  let span ← answer declarator.declaredPlace
  let parameters := declarator.parameterList
  let kind := functionKind parameters header.isSome true
  let (symbol, declaring) ← declareNamed name kind (declarator.type?.getD .empty)
    declarator.id span
  match header with
  | some scope =>
    if name.isQualified then
      let moved ← ask (·.reparent scope declaring)
      change fun _ => moved
  | none => pure ()
  let (prototype, scope) ← functionScope node declarator body name (header.getD declaring)
  match symbol with
  | some id => setDefines id scope
  | none => pure ()
  bindParameters visit parameters prototype
  inScope scope (bindFunctionBody visit node body)

/-- Binds the definition of a function. -/
def bindFunction (visit : Visit) (node : Node) (header : Option ScopeId) : Bind Unit := do
  let declarator := node.third
  let body := node.last
  if declarator.isNil then malformed node .declaration .declarator
  else if !body.isA .block then malformed node .declaration .functionBody
  else
    match declarator.name? with
    | none => malformed declarator .declarator .declaratorName
    | some name => bindDefinition visit node declarator body name header

/-! ## Variables -/

/-- The types whose const variables are constants. -/
def integralTypes : List Encoding :=
  ["b", "c", "w", "s", "i", "l", "j", "Sc", "Uc", "Us", "Ui", "Ul", "Uj"].map
    fun text => ⟨utf8Bytes text⟩

/-- Whether a type is a const integral type. -/
def isConstIntegral (type : Encoding) : Bool :=
  type.beginsWith 'C' && integralTypes.contains type.stripCv

/-- The value that an initializer gives to a variable of a type. -/
def constantValue (type : Encoding) (initializer : Node) : Bind (Option Int64) := do
  if !initializer.isNil && isConstIntegral type then
    answer (Constant.evaluate (← site) (← read).options.extendedFolding initializer)
  else return none

/-- What a variable declarator declares: a constant, if its value is known, and else a
variable, which external and static member declarations do not define. -/
def variableKind (type : Encoding) (initializer : Node) (storage : Storage) :
    Bind SymbolKind := do
  match ← constantValue type initializer with
  | some value => return .constant (some value)
  | none =>
    let scope ← current
    let inClass := (← ask (·.scope scope)).region.isClass
    let only := storage.isExtern || (inClass && storage.isStatic)
    return .object (!initializer.isNil || !only)

/-- Binds one declarator of a declaration. -/
def bindDeclarator (visit : Visit) (storage : Storage) (header : Option ScopeId)
    (declarator : Node) : Bind Unit := do
  match declarator.name? with
  | none => visitElements visit declarator
  | some name =>
    let type := declarator.type?.getD .empty
    let span ← answer declarator.declaredPlace
    if type.isFunction then bindPrototype visit declarator name type span storage header
    else
      let kind ← variableKind type declarator.initializer storage
      discard (declareNamed name kind type declarator.id span)
      visitElements visit declarator

/-! ## Declarations -/

/-- Binds a declaration or the definition of a function. -/
def bindDeclaration (visit : Visit) (node : Node) : Bind Unit := do
  let header ← takeHeader
  let storage := Storage.ofSpecifiers node.first
  let words := node.second
  let declarators := node.third
  if declarators.isA .declarator then
    bindType visit words .elaborated none
    bindFunction visit node header
  else
    if declarators.isNil && !storage.isFriend then bindType visit words .forward header
    else bindType visit words .elaborated none
    (declarators.present.filter (·.isA .declarator)).forM (bindDeclarator visit storage header)

/-- The type that a type definition names directly. -/
def aliasedSymbol (type : Encoding) : Bind (Option SymbolId) := do
  let bare := type.stripCv
  if bare.isSimpleName || bare.isQualified || bare.isTemplateId then
    answer ((← site).first? bare { type := true })
  else return none

/-- Declares one name of a type definition. -/
def bindTypedefName (declarator : Node) : Bind Unit := do
  match declarator.name? with
  | none => pure ()
  | some name =>
    let type := declarator.type?.getD .empty
    let scope ← current
    let target ← aliasedSymbol type
    let span ← answer declarator.declaredPlace
    declareQuietly scope (.ofDeclaration name (.typedefName target) type scope declarator.id span)

/-- Binds a type definition. -/
def bindTypedef (visit : Visit) (node : Node) : Bind Unit := do
  bindType visit node.second .elaborated none
  (node.third.present.filter (·.isA .declarator)).forM bindTypedefName

/-! ## Templates -/

/-- Declares one parameter of a template header. -/
def bindTemplateParameter (scope : ScopeId) (parameter : Node) : Bind Unit := do
  if parameter.isA .typeParameter then
    let identifier := parameter.second
    if identifier.isToken .identifier then
      let name := Encoding.simpleName identifier.text
      declareQuietly scope (.ofDeclaration name .typeParameter name scope parameter.id
        (identifier.token?.map (·.span)))
  else if parameter.isA .parameterDeclaration then
    match parameter.name? with
    | none => pure ()
    | some name =>
      let span ← answer parameter.third.declaredPlace
      declareQuietly scope (.ofDeclaration name (.object true) (parameter.type?.getD .empty)
        scope parameter.id span)

/-- Binds a template header and the declaration under it.  A header under another header
lies inside that one. -/
def bindTemplate (visit : Visit) (node : Node) : Bind Unit := do
  let declaration := node.nth 4
  if declaration.isNil then malformed node .templateDecl .templatedDeclaration
  let outer := (← takeHeader).getD (← current)
  let scope ← scopeFor node.id outer (.templateParameters node.id)
  annotate node scope
  node.third.present.forM (bindTemplateParameter scope)
  modify fun state => { state with header := some scope }
  visit declaration
  modify fun state => { state with header := none }

end Binding
end CppNames
