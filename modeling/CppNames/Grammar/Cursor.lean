import CppNames.Diagnostic.Basic
import CppNames.Encoding.Parts
import CppNames.Token.Basic
import CppNames.Tree.Build

namespace CppNames
namespace Grammar

/-!
# The state of the parser

The parser walks over a list of tokens.  A production that meets an unexpected token
reports it and stops; the tokens taken so far stay taken, and the reports and the names
learned so far stay known.  A declaration list or a block then resumes behind the
trouble.

Nesting is counted while a production runs and given back when it ends, however it
ends.  The combinators `within` and `nested` do the giving back, so no production
restores anything by hand.
-/

/-- A token that could not be parsed, with the message that says what was wrong. -/
structure Misfit where
  token : Token
  message : Message
  arguments : List String
  deriving Repr

/-- What the parser knows at a place of the source. -/
structure State where
  /-- The tokens not yet taken, without the end token. -/
  tokens : List Token
  /-- The end token. -/
  finish : Token
  /-- The reports so far. -/
  misfits : List Misfit
  /-- The names declared as types so far. -/
  typeNames : List String
  /-- The names declared as templates so far. -/
  templateNames : List String
  /-- Whether a class specifier met now is the one that a template header declares. -/
  underHeader : Bool
  /-- How many template argument lists are open; a bare `>` closes one. -/
  templateDepth : Nat
  /-- How many unnamed types were met. -/
  anonymousCount : Nat
  /-- How many function-body blocks are open. -/
  blockDepth : Nat
  /-- How deep the productions are nested, and how deep they may be. -/
  depth : Nat
  maxDepth : Nat
  /-- How many tokens there can be at most, counting both halves of every `>>`. -/
  bound : Nat
  deriving Repr

/-- Why a production stops. -/
inductive Stop where
  /-- A token does not fit; it is reported. -/
  | misfit
  /-- An encoding could not be taken apart. -/
  | flaw (flaw : Encoding.Flaw)
  /-- A count outgrows its width. -/
  | overflow
  /-- The recursion went deeper than there are tokens, which no text brings about. -/
  | endless
  deriving DecidableEq, Repr

/-- A production: it takes tokens and answers a value, or stops. -/
abbrev Production (α : Type) := EStateM Stop State α

/-! ## Looking at tokens -/

/-- The kind of the first token of a list; the end of the text behind the last one. -/
def kindOf : List Token → Token.Kind
  | [] => .endOfFile
  | token :: _ => token.kind

/-- The next token. -/
def State.next (state : State) : Token := state.tokens.headD state.finish

/-- The kind of the next token. -/
def kind : Production Token.Kind := return kindOf (← get).tokens

/-- The kind of the token behind the next one. -/
def kindBehind : Production Token.Kind := return kindOf ((← get).tokens.drop 1)

/-- Whether the next token has a given kind. -/
def sees (expected : Token.Kind) : Production Bool := return (← kind) == expected

/-- Whether a question about the parser's state holds. -/
def asks (question : State → Bool) : Production Bool := return question (← get)

/-! ## Taking tokens -/

/-- The state behind the next token; the end token is never taken. -/
def State.behindNext (state : State) : State := { state with tokens := state.tokens.tail }

/-- Takes the next token as a tree. -/
def take : Production Tree.Plain := do
  let token := (← get).next
  modify State.behindNext
  return Tree.ofToken token

/-- Takes the next token if it has a given kind. -/
def take? (expected : Token.Kind) : Production (Option Tree.Plain) := do
  if ← sees expected then return some (← take) else return none

/-- The tokens with a leading `>>` replaced by two tokens `>`. -/
def splitFirst : List Token → List Token
  | [] => []
  | token :: rest =>
    match token.halves? with
    | some (left, right) => left :: right :: rest
    | none => token :: rest

/-- Replaces a `>>` in front by two tokens `>`, to close nested argument lists. -/
def splitShift : Production Unit :=
  modify fun state => { state with tokens := splitFirst state.tokens }

/-! ## Reporting and stopping -/

/-- Reports the next token. -/
def report (message : Message) (arguments : List String) : Production Unit :=
  modify fun state =>
    { state with misfits := state.misfits ++ [⟨state.next, message, arguments⟩] }

/-- Reports the next token and stops. -/
def fail {α : Type} (message : Message) (arguments : List String) : Production α := do
  report message arguments
  throw .misfit

/-- Takes a token of a given kind, with the text that a report shows where it is
missing.  An expected `>` may be the first half of a `>>`. -/
def expect (expected : Token.Kind) (shown : String) : Production Tree.Plain := do
  if expected == .greater then splitShift
  match ← take? expected with
  | some token => return token
  | none => fail .expected [shown]

/-- What an encoding holds, where it can be taken apart. -/
def reading {α : Type} : Except Encoding.Flaw α → Production α
  | .ok value => return value
  | .error flaw => throw (.flaw flaw)

/-- What was counted, where the count can be told. -/
def counting {α : Type} : Option α → Production α
  | some value => return value
  | none => throw .overflow

/-! ## Nesting -/

/-- Runs a production in an entered state, and leaves the state however it ends. -/
def within {α : Type} (enter : State → State) (leave : State → State → State)
    (body : Production α) : Production α := fun outside =>
  match body (enter outside) with
  | .ok value inside => .ok value (leave outside inside)
  | .error stop inside => .error stop (leave outside inside)

/-- Restores the depth that a state had. -/
def restoreDepth (outside inside : State) : State := { inside with depth := outside.depth }

/-- Restores the template depth that a state had. -/
def restoreTemplateDepth (outside inside : State) : State :=
  { inside with templateDepth := outside.templateDepth }

/-- Goes one level deeper, or stops where the limit is reached. -/
def descend : Production Unit := do
  let state ← get
  if state.maxDepth ≤ state.depth then fail .nestingTooDeep [toString state.maxDepth]
  else set { state with depth := state.depth + 1 }

theorem descend_eq (state : State) :
    descend state = if state.maxDepth ≤ state.depth
      then fail .nestingTooDeep [toString state.maxDepth] state
      else .ok () { state with depth := state.depth + 1 } := by
  have runs : descend state = (if state.maxDepth ≤ state.depth then
      fail .nestingTooDeep [toString state.maxDepth]
      else set { state with depth := state.depth + 1 } : Production Unit) state := rfl
  rw [runs]
  split <;> rfl

/-- Runs a production one level deeper. -/
def nested {α : Type} (body : Production α) : Production α :=
  within id restoreDepth do descend; body

/-- Runs a production that builds a chain by descending one level for each link. -/
def chained {α : Type} (body : Production α) : Production α := within id restoreDepth body

/-- Runs a production inside one more template argument list. -/
def inTemplate {α : Type} (body : Production α) : Production α :=
  within (fun s => { s with templateDepth := s.templateDepth + 1 }) restoreTemplateDepth body

/-- Runs a production inside parentheses, where `>` closes no template argument list. -/
def inParentheses {α : Type} (body : Production α) : Production α :=
  within (fun s => { s with templateDepth := 0 }) restoreTemplateDepth body

/-- Runs a production inside the braces of a function body. -/
def inBlock {α : Type} (body : Production α) : Production α :=
  within (fun s => { s with blockDepth := s.blockDepth + 1 })
    (fun outside inside => { inside with blockDepth := outside.blockDepth }) body

/-- Runs a production under a template header. -/
def underTemplateHeader {α : Type} (body : Production α) : Production α :=
  within (fun s => { s with underHeader := true })
    (fun _ inside => { inside with underHeader := false }) body

/-! ## Repetition -/

/-- Whether a loop goes on. -/
inductive Turn (α : Type) where
  | again (value : α)
  | done (value : α)

/-- Repeats a step at most a given number of times. -/
def repeatWithin {α : Type} (step : α → Production (Turn α)) : Nat → α → Production α
  | 0, _ => throw .endless
  | count + 1, value => do
    match ← step value with
    | .again next => repeatWithin step count next
    | .done last => return last

/-- Repeats a step until it is done.  A step that goes on takes a token, so the number
of tokens bounds the repetitions. -/
def repeatFrom {α : Type} (start : α) (step : α → Production (Turn α)) : Production α := do
  repeatWithin step (← get).bound start

/-- Collects items and the commas between them. -/
def commaSeparated (item : Production (List Tree.Plain)) : Production (List Tree.Plain) :=
  repeatFrom [] fun items => do
    let next ← item
    match ← take? .comma with
    | some comma => return .again (items ++ next ++ [comma])
    | none => return .done (items ++ next)

/-- Collects the tokens in front that satisfy a test on their kinds. -/
def takeRun (test : Token.Kind → Bool) : Production (List Tree.Plain) :=
  repeatFrom [] fun items => do
    if test (← kind) then return .again (items ++ [← take]) else return .done items

/-! ## Names -/

/-- Remembers the name of a type. -/
def learnType (name : String) : Production Unit :=
  modify fun state => { state with typeNames := name :: state.typeNames }

/-- Remembers the name of a template. -/
def learnTemplate (name : String) : Production Unit :=
  modify fun state => { state with templateNames := name :: state.templateNames }

/-- A fresh name for a type without one.  No identifier begins with its first
character. -/
def anonymousName : Production Encoding := do
  modify fun state => { state with anonymousCount := state.anonymousCount + 1 }
  return .simpleName ("`" ++ toString (← get).anonymousCount)

/-! ## Resuming -/

/-- The tokens behind a `;`, where one stands in front. -/
def behindSemicolon : List Token → List Token
  | [] => []
  | token :: rest => if token.kind = .semicolon then rest else token :: rest

/-- The tokens from which parsing resumes after trouble: behind the next `;` outside
braces, behind a closed pair of braces, or in front of a brace that closes more than was
opened. -/
def resumed : Nat → List Token → List Token
  | _, [] => []
  | braces, token :: rest =>
    match token.kind, braces with
    | .semicolon, 0 => rest
    | .openBrace, _ => resumed (braces + 1) rest
    | .closeBrace, 0 => token :: rest
    | .closeBrace, 1 => behindSemicolon rest
    | .closeBrace, more + 1 => resumed more rest
    | _, _ => resumed braces rest

/-- Runs a production and answers its tree.  Where it stops at a misfit, there is no
tree and parsing resumes behind the trouble. -/
def recovering (body : Production Tree.Plain) : Production (List Tree.Plain) := fun state =>
  match body state with
  | .ok tree after => .ok [tree] after
  | .error .misfit after => .ok [] { after with tokens := resumed 0 after.tokens }
  | .error stop after => .error stop after

end Grammar
end CppNames
