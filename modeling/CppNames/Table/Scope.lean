import CppNames.Table.Symbol

namespace CppNames

/-!
# Scopes

A scope is a region of the source with the names declared in it.  The names are kept in
the order in which they are first declared, and each has the symbols that share it, in
order and without repetition.
-/

/-- What kind of region a scope is. -/
inductive Region where
  /-- A namespace.  A namespace that is opened again stays one scope and gets one more
  fragment. -/
  | namespaceBody (name : Encoding) (fragments : List Tree.NodeId) (nominated : List ScopeId)
  | classBody (name : Encoding) (specifier : Tree.NodeId) (bases : List ScopeId)
  /-- A function body together with its outermost block. -/
  | functionBody (name : Encoding) (declaration : Tree.NodeId) (parameters : Option ScopeId)
      (nominated : List ScopeId)
  /-- The parameters of a function declarator. -/
  | prototype (declaration : Tree.NodeId)
  /-- A nested block or a loop with a first statement. -/
  | block (node : Tree.NodeId) (nominated : List ScopeId)
  | templateParameters (declaration : Tree.NodeId)
  deriving DecidableEq, Repr

namespace Region

/-- The declared name of the region; blocks and parameter lists have none. -/
def name : Region → Encoding
  | .namespaceBody name .. | .classBody name .. | .functionBody name .. => name
  | _ => .empty

/-- The namespaces that using-directives in the region nominate. -/
def nominated : Region → List ScopeId
  | .namespaceBody _ _ nominated | .functionBody _ _ _ nominated | .block _ nominated =>
    nominated
  | _ => []

/-- The scopes of the base classes. -/
def bases : Region → List ScopeId
  | .classBody _ _ bases => bases
  | _ => []

/-- Whether the region is a namespace. -/
def isNamespace : Region → Bool
  | .namespaceBody .. => true
  | _ => false

/-- Whether the region is a class. -/
def isClass : Region → Bool
  | .classBody .. => true
  | _ => false

/-- A list with one more member, unless it has it already. -/
def including {α : Type} [DecidableEq α] (members : List α) (member : α) : List α :=
  if member ∈ members then members else members ++ [member]

/-- The region with one more nominated namespace.  Classes and parameter lists cannot
have one. -/
def nominate? (region : Region) (target : ScopeId) : Option Region :=
  match region with
  | .namespaceBody name fragments nominated =>
    some (.namespaceBody name fragments (including nominated target))
  | .functionBody name declaration parameters nominated =>
    some (.functionBody name declaration parameters (including nominated target))
  | .block node nominated => some (.block node (including nominated target))
  | _ => none

/-- The region with one more base class, if it is a class without that base. -/
def withBase? (region : Region) (base : ScopeId) : Option Region :=
  match region with
  | .classBody name specifier bases =>
    if base ∈ bases then none else some (.classBody name specifier (bases ++ [base]))
  | _ => none

/-- The region with one more fragment, where it is a namespace. -/
def withFragment (region : Region) (node : Tree.NodeId) : Region :=
  match region with
  | .namespaceBody name fragments nominated =>
    .namespaceBody name (including fragments node) nominated
  | other => other

/-- A word in front of the region's name. -/
def named (word : String) (name : Encoding) : Outcome String :=
  name.shown.map fun text => word ++ " " ++ text

/-- The words for the region. -/
def words : Region → Outcome String
  | .namespaceBody name .. =>
    if name.isEmpty then .ok "global namespace" else named "namespace" name
  | .classBody name .. => named "class" name
  | .functionBody name .. => named "function" name
  | .prototype _ => .ok "prototype"
  | .block .. => .ok "block"
  | .templateParameters _ => .ok "template parameters"

end Region

/-- A name of a scope with the symbols that share it. -/
structure Binding where
  name : Encoding
  symbols : List SymbolId
  deriving DecidableEq, Repr

/-- A region of the source with the names declared in it. -/
structure Scope where
  region : Region
  outer : Option ScopeId
  /-- The scopes directly inside, in the order in which they came there. -/
  nested : List ScopeId
  /-- The names in the order of their first declaration. -/
  bindings : List Binding
  deriving DecidableEq, Repr

namespace Scope

/-- The scope of a region before anything is declared in it. -/
def ofRegion (region : Region) (outer : Option ScopeId) : Scope := ⟨region, outer, [], []⟩

/-- The symbols that share a name. -/
def named (scope : Scope) (name : Encoding) : List SymbolId :=
  ((scope.bindings.find? (·.name == name)).map (·.symbols)).getD []

/-- The number of names, each counted for every symbol that shares it. -/
def symbolCount (scope : Scope) : Nat := (scope.bindings.flatMap (·.symbols)).length

/-- Names with one more symbol under one of them. -/
def bindIn (name : Encoding) (id : SymbolId) : List Binding → List Binding
  | [] => [⟨name, [id]⟩]
  | first :: rest =>
    if first.name = name then { first with symbols := Region.including first.symbols id } :: rest
    else first :: bindIn name id rest

/-- The scope with one more symbol under a name. -/
def bind (scope : Scope) (name : Encoding) (id : SymbolId) : Scope :=
  { scope with bindings := bindIn name id scope.bindings }

/-- Whether a symbol has a name in the scope. -/
def binds (scope : Scope) (name : Encoding) (id : SymbolId) : Bool :=
  (scope.named name).contains id

/-- The words for the region of the scope. -/
def words (scope : Scope) : Outcome String := scope.region.words

end Scope

end CppNames
