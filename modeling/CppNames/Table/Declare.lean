import CppNames.Table.Basic

namespace CppNames
namespace Table

/-!
# Declaring a name again

A declaration meets the symbols that share its name in its scope one after the other.
Each of them may stand beside it, may be the very thing that it declares again, or may
exclude it.  Functions of different types stand side by side, as do a type and an object
or function of one name; whatever may be declared several times may be defined once.
-/

/-- How a declaration relates to a symbol of the same name. -/
inductive Relation where
  /-- Both may have the name. -/
  | coexist
  /-- The declaration declares the symbol again. -/
  | merge
  /-- Only one of them may have the name. -/
  | conflict
  /-- The declaration defines again what is defined. -/
  | redefinition
  deriving DecidableEq, Repr

/-- Why a declaration was refused. -/
structure Refusal where
  /-- The symbol that is in its way. -/
  previous : SymbolId
  /-- Whether it defines again what is defined. -/
  redefinition : Bool
  deriving DecidableEq, Repr

/-- What may be declared several times may be defined once. -/
def definedOnce (old new : Bool) : Relation := if old && new then .redefinition else .merge

/-- How a declaration relates to a symbol whose name it shares. -/
def relation (id : SymbolId) (old new : Symbol) : Relation :=
  let sameType := old.type == new.type
  let otherwise : Relation :=
    if old.kind.isTagged && (new.kind.isValue || new.kind.isFunction) then .coexist
    else if new.kind.isTagged && (old.kind.isValue || old.kind.isFunction) then .coexist
    else .conflict
  match old.kind, new.kind with
  | .namespaceName, .namespaceName => .merge
  | .function _ a, .function _ b | .functionTemplate _ a, .functionTemplate _ b =>
    if sameType then definedOnce a b else .coexist
  | .function .., .functionTemplate .. | .functionTemplate .., .function .. => .coexist
  | .classType a, .classType b | .classTemplate a, .classTemplate b => definedOnce a b
  | .enumType, .enumType => .redefinition
  | .typedefName _, .typedefName _ => if sameType then .merge else otherwise
  | .classType _, .typedefName (some target) | .enumType, .typedefName (some target)
  | .classTemplate _, .typedefName (some target) =>
    if target = id then .merge else otherwise
  | .object a, .object b => if sameType then definedOnce a b else otherwise
  | .object false, .constant _ | .constant _, .object false =>
    if sameType then .merge else otherwise
  | _, _ => otherwise

/-- What a symbol is once a declaration of it is merged: defined if one of both is, with
the larger number of default arguments, and a constant if the declaration gives the
value of a variable. -/
def mergedKind (old new : SymbolKind) : SymbolKind :=
  match old, new with
  | .object _, .constant value => .constant value
  | .object a, .object b => .object (a || b)
  | .classType a, .classType b => .classType (a || b)
  | .classTemplate a, .classTemplate b => .classTemplate (a || b)
  | .function s a, .function t b =>
    .function { s with defaults := max s.defaults t.defaults } (a || b)
  | .functionTemplate s a, .functionTemplate t b =>
    .functionTemplate { s with defaults := max s.defaults t.defaults } (a || b)
  | other, _ => other

/-- A symbol with a further declaration of it.  A first definition becomes the node and
the place of the symbol. -/
def merged (old new : Symbol) : Symbol :=
  let defines := new.isDefined && !old.isDefined
  { old with
    declarations := old.declarations ++ [new.node]
    kind := mergedKind old.kind new.kind
    node := if defines then new.node else old.node
    span := if defines then new.span else old.span }

/-- What becomes of a declaration. -/
inductive Verdict where
  /-- It is a new symbol. -/
  | fresh
  /-- It declares a symbol again. -/
  | again (id : SymbolId)
  | refused (refusal : Refusal)
  deriving DecidableEq, Repr

/-- The first of some symbols that a node declares. -/
def declaredBy? (table : Table) (node : Tree.NodeId) :
    List SymbolId → Outcome (Option SymbolId)
  | [] => .ok none
  | id :: rest => do
    let symbol ← table.symbol id
    if symbol.declarations.contains node then return some id
    else declaredBy? table node rest

/-- What becomes of a declaration, judged by the symbols that share its name, in
order. -/
def judge (table : Table) (new : Symbol) : List SymbolId → Outcome Verdict
  | [] => .ok .fresh
  | id :: rest => do
    let old ← table.symbol id
    match relation id old new with
    | .coexist => judge table new rest
    | .merge => return .again id
    | .conflict => return .refused ⟨id, false⟩
    | .redefinition => return .refused ⟨id, true⟩

/-- What becomes of a declaration in a scope.  A node never declares anything twice. -/
def verdict (table : Table) (scope : ScopeId) (symbol : Symbol) : Outcome Verdict := do
  let existing := (← table.scope scope).named symbol.name
  match ← table.declaredBy? symbol.node existing with
  | some previous => return .refused ⟨previous, false⟩
  | none => table.judge symbol existing

/-- Declares a symbol in a scope.  The answer is the new symbol, or the one that is
declared again, or why the declaration is refused; a refused declaration changes
nothing. -/
def declare (table : Table) (scope : ScopeId) (symbol : Symbol) :
    Outcome (Table × Except Refusal SymbolId) := do
  match ← table.verdict scope symbol with
  | .fresh =>
    let (added, id) := table.addSymbol scope symbol
    return (added, .ok (← id))
  | .again id => return (table.modifySymbol id (merged · symbol), .ok id)
  | .refused refusal => return (table, .error refusal)

end Table
end CppNames
