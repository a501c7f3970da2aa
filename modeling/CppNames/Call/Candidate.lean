import CppNames.Call.Conversion

namespace CppNames

/-!
# The best candidate

Of the functions that a call may choose, the best one converts every argument at least
as well as each other one does, and some argument better.  A function that ties with a
template is better than the template.  No candidate need be the best one.
-/

/-- A function that a call may choose, with the conversions of the arguments. -/
structure Candidate where
  id : SymbolId
  conversions : List Conversion
  isTemplate : Bool
  deriving DecidableEq, Repr

namespace Candidate

/-- The places of the conversions of two candidates, argument by argument. -/
def paired (left right : Candidate) : List (Nat × Nat) :=
  (left.conversions.map Conversion.rank).zip (right.conversions.map Conversion.rank)

/-- Whether one candidate is better than another. -/
def isBetterThan (left right : Candidate) : Bool :=
  let pairs := left.paired right
  pairs.all (fun (mine, theirs) => mine ≤ theirs) &&
    (pairs.any (fun (mine, theirs) => mine < theirs) || (!left.isTemplate && right.isTemplate))

theorem isBetterThan_irrefl (candidate : Candidate) :
    candidate.isBetterThan candidate = false := by
  have equal : ∀ pair ∈ candidate.paired candidate, pair.1 = pair.2 := by
    intro pair member
    rw [paired, List.zip_eq_zipWith, List.zipWith_self] at member
    obtain ⟨rank, -, rfl⟩ := List.mem_map.1 member
    rfl
  have never : (candidate.paired candidate).any (fun (mine, theirs) => mine < theirs) = false := by
    simp only [List.any_eq_false]
    intro pair member
    simp [equal pair member]
  cases template : candidate.isTemplate <;> simp_all [isBetterThan]

/-- Each member of a list with the others. -/
def eachWithOthers {α : Type} : List α → List (α × List α)
  | [] => []
  | first :: rest =>
    (first, rest) :: (eachWithOthers rest).map fun (member, others) => (member, first :: others)

/-- The candidate that is better than all others, or else those that no other one is
better than. -/
def best (candidates : List Candidate) : Except (List SymbolId) SymbolId :=
  let each := eachWithOthers candidates
  match each.find? fun (candidate, others) => others.all candidate.isBetterThan with
  | some (candidate, _) => .ok candidate.id
  | none =>
    .error ((each.filter fun (candidate, others) =>
      !others.any (·.isBetterThan candidate)).map (·.1.id))

/-- The conversions of arguments to parameters; arguments without a parameter are taken
by an ellipsis. -/
def conversions? (sites : Conversion.Sites) :
    List (Option Encoding) → List Encoding → Outcome (Option (List Conversion))
  | [], _ => .ok (some [])
  | _ :: arguments, [] => do
    return (← conversions? sites arguments []).map (.ellipsis :: ·)
  | argument :: arguments, parameter :: parameters => do
    match ← Conversion.find? sites argument parameter with
    | none => return none
    | some conversion => return (← conversions? sites arguments parameters).map (conversion :: ·)

/-- The parameters of a function type without its ellipsis. -/
def namedParameters (parameters : List Encoding) : List Encoding :=
  if parameters.getLast? = some (.builtin 'e') then parameters.dropLast else parameters

/-- Whether a function takes a number of arguments, given the number of its
parameters. -/
def takes (signature : Signature) (parameters arguments : Nat) : Bool :=
  if arguments ≤ parameters then parameters ≤ arguments + signature.defaults
  else signature.ellipsis

/-- A function as a candidate for a call with arguments of some types, if it takes
them.  Parameter types are written in the scope of the function. -/
def ofFunction? (site : Site) (arguments : List (Option Encoding)) (id : SymbolId) :
    Outcome (Option Candidate) := do
  let symbol ← site.table.symbol id
  match symbol.kind.signature? with
  | none => return none
  | some signature =>
    match ← symbol.type.functionParts? with
    | none => return none
    | some (written, _) =>
      let parameters := namedParameters written
      let count := max signature.parameters parameters.length
      if takes signature count arguments.length then
        let scope := (site.table.scopeOfNode? symbol.node).getD symbol.scope
        let sites : Conversion.Sites := ⟨site, { site with scope := scope }⟩
        let isTemplate := symbol.kind matches .functionTemplate ..
        return (← conversions? sites arguments parameters).map (⟨id, ·, isTemplate⟩)
      else return none

end Candidate

end CppNames
