import CppNames.Grammar.Parse
import CppNames.Grammar.Statement
import CppNames.Proofs.Grammar.Declaration

namespace CppNames
namespace Grammar

/-!
# What the parser reads

The productions of every level answer shaped trees, by induction on the level.  So the tree
of a text is shaped and spells the tokens read for it.  Where nothing was reported these are
all tokens of the text: the list of declarations goes on up to the end of the text, and only
what was reported is passed over without being read.
-/

/-!
## What statements read

Every statement is a list of its own construct.  Expressions in it need no scope, and the
statements and declarations in it are items again.
-/

section

variable {g : Productions}

/-- The statements of which nothing is asked. -/
def plainStatements : List Construct :=
  [.ifStatement, .whileStatement, .doStatement, .returnStatement, .breakStatement,
    .continueStatement, .exprStatement]

/-- The lists that spell statements.  The body of a loop is there. -/
def StatementList (construct : Construct) (trees : List Tree.Plain) : Prop :=
  construct ∈ plainStatements ∨
    construct = .forStatement ∧ ((Tree.list construct trees).nth 7).isNil = false

/-- What is known of the productions that statements recur to. -/
structure Statements (part whole : Tree.Plain → List Token → Prop) (g : Productions) : Prop where
  inherited : Inherited StatementList part whole
  expression : Reads anywhere g.expression part
  statement : Reads anywhere g.statement whole
  block : Reads anywhere (block g) whole
  usingForm : Reads notAtEnd (usingForm g) whole
  typedefDeclaration : Reads notAtEnd (typedefDeclaration g) whole
  declaration : Reads anywhere (simpleDeclaration g .block) whole

namespace Statements

variable {part whole : Tree.Plain → List Token → Prop} {test : Token.Kind → Prop}
  {construct : Construct} {tree : Tree.Plain} {trees : List Tree.Plain} {read : List Token}

section

variable (holds : Statements part whole g)
include holds

theorem token (leaf : IsLeaf test tree read) : part tree read :=
  holds.inherited.element (holds.inherited.leaf leaf)

theorem element (item : whole tree read) : part tree read := holds.inherited.element item

theorem plain (each : Each part trees read) (plain : construct ∈ plainStatements) :
    whole (Tree.list construct trees) read :=
  holds.inherited.list (.inl plain) each

theorem condition_reads : Reads anywhere (condition g) (Each part) := by
  refine .bind (.expect (by decide)) fun opening readOpening leafOpening => ?_
  refine .bind holds.expression fun value readValue simple => ?_
  refine .bind (.expect (by decide)) fun closing readClosing leafClosing => .pure ?_
  exact .cons (holds.token leafOpening) (.cons simple (.cons (holds.token leafClosing) .nil))

theorem alternative_reads : Reads anywhere (alternative g) (Each part) := by
  refine .optional (by decide) (fun keyword readKeyword leaf => ?_) (.pure .nil)
  refine .bind holds.statement fun body readBody item => .pure ?_
  exact .cons (holds.token leaf) (.cons (holds.element item) .nil)

theorem ifStatement_reads : Reads notAtEnd (ifStatement g) whole := by
  refine .bind .takeAny fun keyword readKeyword leaf => ?_
  refine .bind holds.condition_reads fun test readTest each => ?_
  refine .bind holds.statement fun chosen readChosen item => ?_
  refine .bind holds.alternative_reads fun otherwise readOtherwise more => .pure ?_
  have parts : Each part ([keyword] ++ (test ++ ([chosen] ++ otherwise)))
      (readKeyword ++ (readTest ++ (readChosen ++ readOtherwise))) :=
    (Each.single (holds.token leaf)).append
      (each.append ((Each.single (holds.element item)).append more))
  simpa using holds.plain parts (by decide)

theorem whileStatement_reads : Reads notAtEnd (whileStatement g) whole := by
  refine .bind .takeAny fun keyword readKeyword leaf => ?_
  refine .bind holds.condition_reads fun test readTest each => ?_
  refine .bind holds.statement fun body readBody item => .pure ?_
  have parts : Each part ([keyword] ++ (test ++ [body])) (readKeyword ++ (readTest ++ readBody)) :=
    (Each.single (holds.token leaf)).append (each.append (.single (holds.element item)))
  simpa using holds.plain parts (by decide)

theorem doStatement_reads : Reads notAtEnd (doStatement g) whole := by
  refine .bind .takeAny fun keyword readKeyword leaf => ?_
  refine .bind holds.statement fun body readBody item => ?_
  refine .bind (.expect (by decide)) fun whileKeyword readWhile leafWhile => ?_
  refine .bind holds.condition_reads fun test readTest each => ?_
  refine .bind (.expect (by decide)) fun semicolon readSemicolon leafSemicolon => .pure ?_
  have front : Each part [keyword, body, whileKeyword]
      (readKeyword ++ (readBody ++ (readWhile ++ []))) :=
    .cons (holds.token leaf) (.cons (holds.element item) (.cons (holds.token leafWhile) .nil))
  have parts := (front.append each).append (.single (holds.token leafSemicolon))
  simpa using holds.plain parts (by decide)

theorem optionalExpression_reads (closing : Token.Kind) :
    Reads anywhere (optionalExpression g closing) part :=
  .sees (.pure holds.inherited.nil) holds.expression

theorem forStatement_reads : Reads notAtEnd (forStatement g) whole := by
  refine .bind .takeAny fun keyword readKeyword leaf => ?_
  refine .bind (.expect (by decide)) fun opening readOpening leafOpening => ?_
  refine .bind holds.statement fun first readFirst itemFirst => ?_
  refine .bind (holds.optionalExpression_reads _) fun test readTest shapedTest => ?_
  refine .bind (.expect (by decide)) fun semicolon readSemicolon leafSemicolon => ?_
  refine .bind (holds.optionalExpression_reads _) fun step readStep shapedStep => ?_
  refine .bind (.expect (by decide)) fun closing readClosing leafClosing => ?_
  refine .bind holds.statement fun body readBody item => .pure ?_
  have parts : Each part [keyword, opening, first, test, semicolon, step, closing, body] _ :=
    .cons (holds.token leaf) (.cons (holds.token leafOpening) (.cons (holds.element itemFirst)
      (.cons shapedTest (.cons (holds.token leafSemicolon) (.cons shapedStep
        (.cons (holds.token leafClosing) (.cons (holds.element item) .nil)))))))
  exact holds.inherited.list (.inr ⟨rfl, holds.inherited.there item⟩) parts

theorem returnStatement_reads : Reads notAtEnd (returnStatement g) whole := by
  refine .bind .takeAny fun keyword readKeyword leaf => ?_
  refine .bind (holds.optionalExpression_reads _) fun value readValue shaped => ?_
  refine .bind (.expect (by decide)) fun semicolon readSemicolon leafSemicolon => .pure ?_
  have parts : Each part [keyword, value, semicolon] _ :=
    .cons (holds.token leaf) (.cons shaped (.cons (holds.token leafSemicolon) .nil))
  exact holds.plain parts (by decide)

theorem jumpStatement_reads {construct : Construct} (plain : construct ∈ plainStatements) :
    Reads notAtEnd (jumpStatement construct) whole := by
  refine .bind .takeAny fun keyword readKeyword leaf => ?_
  refine .bind (.expect (by decide)) fun semicolon readSemicolon leafSemicolon => .pure ?_
  have parts : Each part [keyword, semicolon] _ :=
    .cons (holds.token leaf) (.cons (holds.token leafSemicolon) .nil)
  exact holds.plain parts plain

theorem expressionStatement_reads :
    Reads anywhere (expressionStatement g) whole := by
  refine .bind holds.expression fun value readValue simple => ?_
  refine .bind (.expect (by decide)) fun semicolon readSemicolon leafSemicolon => .pure ?_
  have parts : Each part [value, semicolon] _ :=
    .cons simple (.cons (holds.token leafSemicolon) .nil)
  exact holds.plain parts (by decide)

theorem plainStatement_reads (next : Token.Kind) :
    Reads anywhere (plainStatement g next) whole := by
  unfold plainStatement
  split
  · exact holds.declaration
  · refine .asks fun declares => ?_
    split
    · exact holds.declaration
    · exact holds.expressionStatement_reads

theorem statement_reads : Reads anywhere (Grammar.statement g) whole := by
  refine .nested (.kind fun found => ?_)
  split
  · exact holds.block.ofAnywhere
  · exact holds.ifStatement_reads.ofSeen (by decide)
  · exact holds.whileStatement_reads.ofSeen (by decide)
  · exact holds.doStatement_reads.ofSeen (by decide)
  · exact holds.forStatement_reads.ofSeen (by decide)
  · exact holds.returnStatement_reads.ofSeen (by decide)
  · exact (holds.jumpStatement_reads (by decide)).ofSeen (by decide)
  · exact (holds.jumpStatement_reads (by decide)).ofSeen (by decide)
  · refine .bind (.takeSeen (by decide)) fun semicolon readSemicolon leaf => .pure ?_
    have parts : Each part [Tree.nil, semicolon] ([] ++ (readSemicolon ++ [])) :=
      .cons holds.inherited.nil (.cons (holds.token leaf) .nil)
    exact holds.plain parts (by decide)
  · exact holds.usingForm.ofSeen (by decide)
  · exact holds.typedefDeclaration.ofSeen (by decide)
  · exact (holds.plainStatement_reads found).ofAnywhere

end

end Statements

/-! ## Statements are shaped -/

theorem Each.statement {trees : List Tree.Plain} {read : List Token} {construct : Construct}
    (each : Each Shaped trees read) (plain : construct ∈ plainStatements) :
    Item (Tree.list construct trees) read := by
  refine each.item_encodedList ?_
  simp only [plainStatements, List.mem_cons, List.not_mem_nil, or_false] at plain
  rcases plain with rfl | rfl | rfl | rfl | rfl | rfl | rfl <;>
    exact fun hides => absurd hides (by decide)

theorem inherited_item : Inherited StatementList Shaped Item where
  nil := simple_nil.toShaped
  leaf leaf := ⟨leaf.shaped, leaf.operand.there⟩
  element := Item.toShaped
  there := Item.there
  seq := Each.shaped_seq
  list admitted each := by
    rcases admitted with plain | ⟨rfl, there⟩
    · exact each.statement plain
    · exact each.item_encodedList there

theorem statement_reads (parses : Parses g) : Reads anywhere (statement g) Item :=
  Statements.statement_reads
    { inherited := inherited_item
      expression := parses.expression.weaken fun _ _ simple => simple.toShaped
      statement := parses.statement
      block := (block_reads parses).weaken fun _ _ braced => braced.toItem
      usingForm := usingForm_reads parses
      typedefDeclaration := typedefDeclaration_reads parses
      declaration := simpleDeclaration_reads parses .block }

end

/-! ## Levels -/

theorem parses_productions (level : Nat) : Parses (productions level) := by
  induction level with
  | zero => exact parses_exhausted
  | succ level ih =>
    have expressions := ih.expressions
    have simple : ∀ {place : Where} {production : Production Tree.Plain},
        Reads place production Operand → Reads place production Simple :=
      fun reads => reads.weaken fun _ _ operand => operand.toSimple
    exact
      { typeId := typeId_reads ih
        assignment := simple expressions.assignmentExpression_reads
        expression := simple expressions.commaExpression_reads
        cast := simple expressions.castExpression_reads
        binary := fun minimum => simple (expressions.binaryExpression_reads minimum)
        initializers := simple expressions.initializerList_reads
        parameter := parameterDeclaration_reads ih
        declaration := declaration_reads ih
        statement := statement_reads ih }

theorem unit_reads : Reads anywhere unit Shaped := by
  refine .ask (fun _ => rfl) fun state => ?_
  refine .bind (declarationList_reads (parses_productions _) .file) fun trees read each => .pure ?_
  rw [List.append_nil]
  exact each.items.shaped_seq

/-! ## The end of the text -/

variable {α : Type}

theorem tokens_ofTokens_concat (maxDepth : Nat) (tokens : List Token) (finish : Token) :
    (State.ofTokens maxDepth (tokens ++ [finish])).tokens = tokens := List.dropLast_concat

/-- A loop ends in the state in which its last turn ends. -/
theorem repeatWithin_done {step : α → Production (Turn α)} {count : Nat} {start value : α}
    {before after : State} (runs : repeatWithin step count start before = .ok value after) :
    ∃ previous middle, step previous middle = .ok (.done value) after := by
  induction count generalizing start before with
  | zero => cases runs
  | succ count ih =>
    unfold repeatWithin at runs
    cases turn : step start before with
    | error stop stopped =>
      rw [bind_of_error turn] at runs
      cases runs
    | ok ended middle =>
      rw [bind_of_ok turn] at runs
      cases ended with
      | again next => exact ih runs
      | done last =>
        cases runs
        exact ⟨start, before, turn⟩

/-- The declarations of a file go on up to the end of the text. -/
theorem declarationList_ends {g : Productions} {trees : List Tree.Plain} {before after : State}
    (runs : declarationList g .file before = .ok trees after) :
    kindOf after.tokens = .endOfFile := by
  rcases repeatWithin_done runs with ⟨previous, middle, turn⟩
  have asked : kind middle = .ok (kindOf middle.tokens) middle := rfl
  rw [bind_of_ok asked] at turn
  generalize ends : kindOf middle.tokens = found at turn
  split at turn
  · cases turn
    exact ends
  · cases turn
  · cases result : recovering (g.declaration .file) middle with
    | error stop stopped => rw [bind_of_error result] at turn; cases turn
    | ok more last => rw [bind_of_ok result] at turn; cases turn

theorem unit_ends {tree : Tree.Plain} {before after : State} (runs : unit before = .ok tree after) :
    kindOf after.tokens = .endOfFile := by
  change (declarationList (productions before.bound) .file >>= fun trees =>
    pure (Tree.seq trees)) before = .ok tree after at runs
  cases result : declarationList (productions before.bound) .file before with
  | error stop stopped => rw [bind_of_error result] at runs; cases runs
  | ok trees last =>
    rw [bind_of_ok result] at runs
    cases runs
    exact declarationList_ends result

/-- Splitting makes no end of the text. -/
theorem Halved.noEnd {whole split : List Token} (halved : Halved whole split)
    (noEnd : ∀ token ∈ whole, token.kind ≠ .endOfFile) :
    ∀ token ∈ split, token.kind ≠ .endOfFile :=
  halved.all (fun _ _ _ => ⟨Token.Kind.noConfusion, Token.Kind.noConfusion⟩) noEnd

/-- What is read of a text without an end inside it, where nothing was reported, is the whole
text. -/
theorem unit_readsAll {tree : Tree.Plain} {before after : State}
    (runs : unit before = .ok tree after)
    (noEnd : ∀ token ∈ before.tokens, token.kind ≠ .endOfFile) (none : before.misfits = []) :
    ∃ read, Shaped tree read ∧ (after.misfits = [] → Halved before.tokens read) := by
  have ends := unit_reads before trivial
  rw [runs] at ends
  rcases ends with ⟨read, shaped, progress⟩
  refine ⟨read, shaped, fun noMisfit => ?_⟩
  rcases progress.passed with ⟨passed, halved, _, whole⟩
  have nothingLeft : after.tokens = [] := by
    cases left : after.tokens with
    | nil => rfl
    | cons token rest =>
      have isEnd := unit_ends runs
      rw [left] at isEnd
      have inside : token ∈ passed ++ after.tokens := by simp [left]
      exact absurd isEnd (halved.noEnd noEnd token inside)
  rw [nothingLeft, List.append_nil] at halved
  rw [whole (by rw [noMisfit, none])]
  exact halved

end Grammar

/-- The tree of a text is the numbering of a shaped tree. -/
theorem parse_shaped {file source : String} {options : ParseOptions} {parsed : Parsed}
    (parses : parse file source options = .ok parsed) :
    ∃ plain read, Grammar.Shaped plain read ∧ parsed.tree = plain.numbered := by
  rcases of_parse parses with ⟨tree, state, runs, rfl⟩
  have ends := Grammar.unit_reads (Grammar.State.ofTokens options.maxDepth
    (tokenize file options.cxx source).1) trivial
  rw [runs] at ends
  rcases ends with ⟨read, shaped, _⟩
  exact ⟨tree, read, shaped, rfl⟩

end CppNames
