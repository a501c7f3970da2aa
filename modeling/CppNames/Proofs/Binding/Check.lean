import CppNames.Binding.Bind
import CppNames.Proofs.Lookup.Outward
import CppNames.Proofs.Tree.Part

namespace CppNames

namespace Table

instance (table : Table) (inner outer : ScopeId) : Decidable (table.Around inner outer) :=
  match read : table.scope inner with
  | .error _ => isFalse fun around => by
    rcases around with ⟨scope, same, _⟩
    rw [read] at same
    cases same
  | .ok scope => decidable_of_iff (scope.outer = some outer) (by simp [Around, read])

end Table

namespace Binding

/-!
# Definitions outside their classes

A function or a class with a qualified name is defined outside the class that it belongs to, and
often behind some template headers.  `LiesRight` says where its scope lies when it is bound.

This cannot be told from the table at the end, since the qualifier may come to denote something
else.  So `bindChecked` binds a tree and looks behind every node whether the definitions in it
lie right.  It stops where they do not.
-/

open Table

/-- The scope that the qualifier of a name denotes. -/
def denoted? (table : Table) (scope : ScopeId) (name : Encoding) : Option ScopeId :=
  match name.components with
  | .error _ => none
  | .ok components =>
    if components = [] then none
    else
      match table.lookupScope (.qualified components.dropLast) scope with
      | .ok (.ok target) => target
      | _ => none

/-! ## Specifiers -/

/-- The classes and enumerations that are specified in a node. -/
def specifiers (node : Node) : List Node :=
  if node.isA .classSpec then [node]
  else if node.isA .declaration || node.isA .typedefDecl then typeSpecifiers node.second
  else []

/-- Whether a declaration declares its classes and nothing else. -/
def standsAlone (node : Node) : Bool :=
  node.third.isNil && !(Storage.ofSpecifiers node.first).isFriend

/-- Binds some specifiers of a node, the first that there are. -/
def bindFirst (visit : Visit) (node : Node) (first : List Node) : Bind Unit :=
  if node.isA .declaration then do
    let header ← takeHeader
    if standsAlone node then first.forM (bindSpecifier visit .forward header)
    else first.forM (bindSpecifier visit .elaborated none)
  else first.forM (bindSpecifier visit .elaborated none)

/-- The state in which a step ends, if it does not stop. -/
def stateOf {α : Type} : EStateM.Result PassError State α → Option State
  | .ok _ state => some state
  | .error .. => none

/-! ## Where scopes lie -/

/-- The scopes of some template headers. -/
def scopesOf (table : Table) (headers : List Node) : List (Option ScopeId) :=
  headers.map fun header => table.scopeOfNode? header.id

/-- The innermost of the headers around a node is the one whose declaration comes next. -/
def HeadersStand (headers : List Node) (before : State) : Prop :=
  (∀ scope ∈ scopesOf before.table headers, scope.isSome) ∧
    ∀ scope ∈ (scopesOf before.table headers).head?, before.header = scope

/-- The scope of a function lies in the innermost header, and this in the scope that the qualifier
denotes once the specifiers of the function are bound.  Without a header the scope of the function
lies there itself. -/
def FunctionLies (visit : Visit) (node : Node) (here : Surroundings) (before after : State) :
    Prop :=
  node.definesFunction = true → ∀ name ∈ node.third.name?, name.isQualified = true →
    ∀ middle ∈ stateOf (bindFirst visit node (specifiers node) here before),
    ∀ target ∈ denoted? middle.table here.current name,
    ∃ body ∈ after.annotations.scope? node,
      List.IsChain after.table.Around (body :: (before.header.toList ++ [target]))

/-- The scope of a class with a qualified name lies in one scope after another. -/
def ClassLies (specifier : Node) (before : Table) (scope : ScopeId) (after : State)
    (route : ScopeId → List ScopeId) : Prop :=
  specifier.isA .classSpec = true → (specifier.nth 3).isNil = false →
    ∀ name ∈ specifier.name?, name.isQualified = true → ∀ target ∈ denoted? before scope name,
    ∃ body ∈ after.annotations.scope? specifier,
      List.IsChain after.table.Around (body :: route target)

/-- The scope of a class that stands alone behind headers lies in all of them.  The scope of another
class lies in the scope that the qualifier denotes once the specifiers in front are bound. -/
def ClassesLie (headers : List Node) (visit : Visit) (node : Node) (here : Surroundings)
    (before after : State) : Prop :=
  ∀ index < (specifiers node).length, ∀ specifier ∈ (specifiers node)[index]?,
    ∀ middle ∈ stateOf (bindFirst visit node ((specifiers node).take index) here before),
    ClassLies specifier middle.table here.current after fun target =>
      if node.isA .declaration && standsAlone node && before.header.isSome
      then (scopesOf before.table headers).filterMap id else [target]

/-- The definitions in a node lie right behind some headers, the innermost of them first. -/
def LiesRight (headers : List Node) (visit : Visit) (node : Node) (here : Surroundings)
    (before after : State) : Prop :=
  HeadersStand headers before ∧ FunctionLies visit node here before after ∧
    ClassesLie headers visit node here before after

instance (specifier : Node) (before : Table) (scope : ScopeId) (after : State)
    (route : ScopeId → List ScopeId) : Decidable (ClassLies specifier before scope after route) := by
  unfold ClassLies
  infer_instance

instance (headers : List Node) (visit : Visit) (node : Node) (here : Surroundings)
    (before after : State) : Decidable (LiesRight headers visit node here before after) := by
  unfold LiesRight HeadersStand FunctionLies ClassesLie
  infer_instance

/-! ## Checked binding -/

/-- Binds a node of at most a given size behind some template headers, and looks behind every node
inside it whether the definitions lie right. -/
def bindChecked : Nat → List Node → Node → Bind Unit
  | 0, _, _ => throw (.fault .endless)
  | size + 1, headers, node => do
    let here ← read
    let before ← get
    bindNode (bindChecked size (if node.isA .templateDecl then node :: headers else [])) node
    let after ← get
    if LiesRight headers (bindWithin size) node here before after then pure ()
    else throw (.fault .endless)

/-- Binds the declarations of a tree and checks them. -/
def bindTreeChecked (tree : Node) : Bind Unit := visitElements (bindChecked tree.size []) tree

end Binding
end CppNames
