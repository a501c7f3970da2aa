import CppNames.Call.Candidate
import CppNames.Call.Error
import CppNames.Tree.Parts

namespace CppNames
namespace Call

/-!
# Choosing the function of a call

The callee of a call names some symbols, by itself or as a member of an object.  If they
are functions, the arguments choose one of them; a single object is called through its
type.  The types of expressions are a parameter here, because the type of an argument may
depend on the function that another call chooses.
-/

/-- The type of an expression, as far as it is known. -/
abbrev TypeOf := Node → Outcome (Option Encoding)

/-- What a call chooses, or why it chooses nothing. -/
abbrev Choice (α : Type) := ExceptT CallError Outcome α

/-- The members that the name behind `.` or `->` finds in the class of the object in
front of it, where that class is known. -/
def members? (site : Site) (typeOf : TypeOf) (access : Node) : Outcome (Option SymbolSet) := do
  match ← typeOf access.first with
  | none => return none
  | some type =>
    match ← site.objectClass? (access.isA .arrowMemberExpr) type with
    | none => return none
    | some scope =>
      match access.third.calleeName? with
      | none => return none
      | some member => return some (← site.membersNamed scope member)

/-- The symbols that a callee without brackets around it finds; `name` is the callee as
written. -/
def namedBy (site : Site) (name : String) (callee : Node) : Choice SymbolSet := do
  match callee.calleeName? with
  | none => throw (.dependent name)
  | some encoded =>
    match ← site.lookup encoded {} with
    | .ok found => return found
    | .error error => throw (.lookup error)

/-- The symbols that a callee finds, before it is known whether there are any. -/
def found (site : Site) (typeOf : TypeOf) (name : String) (callee : Node) :
    Choice SymbolSet := do
  match callee.construct? with
  | some .dotMemberExpr | some .arrowMemberExpr =>
    match ← members? site typeOf callee with
    | some members => return members
    | none => throw (.dependent name)
  | some .parenExpr => namedBy site name callee.second
  | _ => namedBy site name callee

/-- The symbols that a callee finds. -/
def candidates (site : Site) (typeOf : TypeOf) (name : String) (callee : Node) :
    Choice (List SymbolId) := do
  let found ← found site typeOf name callee
  if found.dependent then throw (.dependent name)
  else if found.isEmpty then throw (.undefined name)
  else return found.ids

/-- Calls a single symbol that is no function: a variable that points to one. -/
def throughObject (site : Site) (name : String) (id : SymbolId) : Choice SymbolId := do
  let symbol ← site.table.symbol id
  match symbol.kind with
  | .object _ =>
    let type := symbol.type.decayed
    if type.isFunction || type.target?.any (·.isFunction) then return id
    else if (← site.classScope? type).isSome then throw (.dependent name)
    else throw (.notCallable name)
  | _ => throw (.notCallable name)

/-- The arguments of a call. -/
def arguments (call : Node) : List Node :=
  call.third.present.filter (!·.isToken .comma)

/-- Chooses among functions by the arguments of a call. -/
def amongFunctions (site : Site) (typeOf : TypeOf) (name : String) (call : Node)
    (functions : List SymbolId) : Choice SymbolId := do
  let types ← ((arguments call).mapM typeOf : Outcome _)
  let viable ← (functions.filterMapM (Candidate.ofFunction? site types) : Outcome _)
  match viable with
  | [] => throw (.noViable name)
  | [only] => return only.id
  | several =>
    match Candidate.best several with
    | .ok id => return id
    | .error unbeaten => throw (.ambiguous name unbeaten)

/-- The symbol that a call calls, given the types of expressions. -/
def resolveWith (typeOf : TypeOf) (site : Site) (call : Node) : Choice SymbolId := do
  let callee := call.first
  if callee.isNil then throw (.notCallable call.joined)
  else
    let name := callee.joined
    let ids ← candidates site typeOf name callee
    let functions ← site.table.ofKind SymbolKind.isFunction ids
    let others ← site.table.ofKind (!·.isFunction) ids
    match others with
    | [] => amongFunctions site typeOf name call functions
    | first :: rest =>
      if functions.isEmpty && rest.isEmpty then throughObject site name first
      else throw (.lookup (.ambiguous name ids))

end Call
end CppNames
