import CppNames.Grammar.Statement
import CppNames.Token.Scanner

namespace CppNames

/-!
# Parsing a source text

The grammar is tied together level by level: the productions of one level recur into
the level below.  Every recursion lies behind a token, so as many levels as there are
tokens suffice.  What does not fit the grammar is reported and left out of the tree.
-/

namespace Grammar

/-- The productions that may nest a given number of times. -/
def productions : Nat → Productions
  | 0 => .exhausted
  | level + 1 =>
    { typeId := fun state => typeId (productions level) state
      assignment := fun state => assignmentExpression (productions level) state
      expression := fun state => commaExpression (productions level) state
      cast := fun state => castExpression (productions level) state
      binary := fun minimum state => binaryExpression (productions level) minimum state
      initializers := fun state => initializerList (productions level) state
      parameter := fun state => parameterDeclaration (productions level) state
      declaration := fun place state => declaration (productions level) place state
      statement := fun state => statement (productions level) state }

/-- How many tokens a token can become: a `>>` may be split. -/
def weight (token : Token) : Nat := if token.halves?.isSome then 2 else 1

theorem weight_pos (token : Token) : 0 < weight token := by
  unfold weight
  split <;> decide

/-- The state in front of some tokens, the end token last. -/
def State.ofTokens (maxDepth : Nat) (tokens : List Token) : State where
  tokens := tokens.dropLast
  finish := tokens.getLastD default
  misfits := []
  typeNames := []
  templateNames := []
  underHeader := false
  templateDepth := 0
  anonymousCount := 0
  blockDepth := 0
  depth := 0
  maxDepth := maxDepth
  bound := tokens.foldr (fun token count => weight token + count) 1

/-- The declarations of a source text. -/
def unit : Production Tree.Plain := do
  let levels := (← get).bound
  return Tree.seq (← declarationList (productions levels) .file)

end Grammar

/-- How a source text is parsed. -/
structure ParseOptions where
  /-- Whether the words that only C++ reserves are keywords. -/
  cxx : Bool := true
  /-- How deep constructs may be nested. -/
  maxDepth : Nat := 256
  deriving DecidableEq, Repr

/-- What parsing a source text gives. -/
structure Parsed where
  /-- The declarations as a plain list, numbered. -/
  tree : Node
  /-- The tokens that did not fit. -/
  errors : List Token
  /-- The reports, first those of reading tokens and then those of parsing. -/
  log : Log
  deriving Repr

/-- The report on a token that did not fit. -/
def Grammar.Misfit.diagnostic (file : String) (misfit : Grammar.Misfit) : Diagnostic :=
  Diagnostic.inFile file misfit.token.span misfit.message misfit.arguments

/-- Parses a source text. -/
def parse (file source : String) (options : ParseOptions) : Except Grammar.Stop Parsed :=
  let (tokens, log) := tokenize file options.cxx source
  match Grammar.unit (Grammar.State.ofTokens options.maxDepth tokens) with
  | .ok tree state =>
    .ok ⟨tree.numbered, state.misfits.map (·.token),
      log ++ state.misfits.map (·.diagnostic file)⟩
  | .error stop _ => .error stop

/-- A text is parsed where the grammar comes to its end. -/
theorem of_parse {file source : String} {options : ParseOptions} {parsed : Parsed}
    (parses : parse file source options = .ok parsed) :
    ∃ tree state,
      Grammar.unit (.ofTokens options.maxDepth (tokenize file options.cxx source).1) =
        .ok tree state ∧
      parsed = ⟨tree.numbered, state.misfits.map (·.token),
        (tokenize file options.cxx source).2 ++ state.misfits.map (·.diagnostic file)⟩ := by
  unfold parse at parses
  dsimp only at parses
  split at parses
  · next tree state runs =>
    cases parses
    exact ⟨tree, state, runs, rfl⟩
  · cases parses

end CppNames
