import CppNames.Grammar.Statement
import CppNames.Proofs.Running.Specifier

namespace CppNames
namespace Grammar

/-!
# How declarations and statements run

A declaration or a statement that is answered has passed a token: most of them end with a token
that has to be there.  A turn of the statements in a block passes a token even where the
statement stops at once, since such a turn never begins in front of a brace that closes.
-/

variable {terms : Terms} {levels spare paid : Nat} {state : State} {g twin : Productions}

/-! ## Simple declarations -/

theorem usingForm_runs (lasting : Lasting terms levels g twin)
    (ready : Ready terms levels spare state) :
    Runs terms state (usingForm g) (usingForm twin) (fun _ => 1) anything := by
  refine .behind ready .take fun _ middle ready => .optional ready rfl (fun _ _ ready => ?_) ?_
  · refine .behind ready (name_runs lasting ready false).any fun _ _ ready => ?_
    exact .answering (.any (.expect ready rfl)) fun _ => rfl
  · have typename : Runs terms middle (discard (take? .kwTypename)) (discard (take? .kwTypename))
        nothing anything := .map .take?
    refine .behind ready typename fun _ _ ready => ?_
    refine .behind ready (name_runs lasting ready false).any fun _ _ ready => ?_
    exact .answering (.expect ready rfl) fun _ => rfl

theorem typedefDeclarators_runs (lasting : Lasting terms levels g twin)
    (ready : Ready terms levels spare state) (base : Encoding) :
    Runs terms state (typedefDeclarators g base) (typedefDeclarators twin base) nothing
      anything := by
  refine .commaSeparated ready fun _ ready => ?_
  refine .behind ready (declarator_runs lasting ready base .named) fun declared _ ready => ?_
  split
  · exact .answering .learnType fun _ => rfl
  · exact .pure rfl trivial

theorem typedefDeclaration_runs (lasting : Lasting terms levels g twin)
    (ready : Ready terms levels spare state) :
    Runs terms state (typedefDeclaration g) (typedefDeclaration twin) (fun _ => 1) anything := by
  refine .behind ready .take fun _ _ ready => ?_
  refine .behind ready (specifiers_runs lasting ready .namespaceBody) fun read _ ready => ?_
  refine .behind ready (typedefDeclarators_runs lasting ready read.encoding) fun _ _ ready => ?_
  exact .answering (.expect ready rfl) fun _ => rfl

/-- A turn of the loop that reads the statements of a block. -/
def statementTurn (g : Productions) (read : List Tree.Plain) :
    Production (Turn (List Tree.Plain)) := do
  if [.closeBrace, .endOfFile].contains (← kind) then return .done read
  else return .again (read ++ (← recovering g.statement))

theorem statements_eq (g : Productions) : statements g = repeatFrom [] (statementTurn g) := rfl

theorem statementTurn_runs (lasting : Lasting terms levels g twin)
    (ready : Ready terms levels (spare + 2) state) (read : List Tree.Plain) :
    Runs terms state (statementTurn g read) (statementTurn twin read) (Turn.price 0)
      anything := by
  refine .kind fun found front => ?_
  split
  · exact .pure rfl trivial
  · next closes =>
    subst front
    rw [List.contains_iff_mem, List.mem_cons, List.mem_singleton, not_or] at closes
    exact .answering (.recovering closes.2 closes.1 (lasting.statement ready)) fun _ => rfl

theorem statements_runs (lasting : Lasting terms levels g twin)
    (ready : Ready terms levels (spare + 2) state) :
    Runs terms state (statements g) (statements twin) nothing anything := by
  rw [statements_eq, statements_eq]
  exact .repeating ready fun read _ ready => statementTurn_runs lasting ready read

theorem block_runs (lasting : Lasting terms levels g twin)
    (ready : Ready terms levels (spare + 1) state) :
    Runs terms state (block g) (block twin) (fun _ => 1) anything := by
  refine .behind ready (.expect ready rfl) fun _ _ ready => ?_
  refine .behind ready (.inBlock ready fun _ => statements_runs lasting) fun _ _ ready => ?_
  exact .answering (.any (.expect ready rfl)) fun _ => rfl

theorem memberInitializer_runs (lasting : Lasting terms levels g twin)
    (ready : Ready terms levels spare state) :
    Runs terms state (memberInitializer g) (memberInitializer twin) nothing anything := by
  refine .behind ready (name_runs lasting ready true).any fun _ _ ready => ?_
  refine .behind ready (.expect ready rfl) fun _ _ ready => ?_
  refine .behind ready (arguments_runs lasting ready) fun _ _ ready => ?_
  exact .answering (.expect ready rfl) fun _ => rfl

theorem memberInitializers_runs (lasting : Lasting terms levels g twin)
    (ready : Ready terms levels spare state) :
    Runs terms state (memberInitializers g) (memberInitializers twin) nothing anything := by
  refine .optional ready rfl (fun _ _ ready => ?_) (.pure rfl trivial)
  refine .answering (.commaSeparated ready fun _ ready => ?_) fun _ => rfl
  exact .answering (memberInitializer_runs lasting ready) fun _ => rfl

theorem moreDeclarators_runs (lasting : Lasting terms levels g twin)
    (ready : Ready terms levels spare state) (base : Encoding) (form : DeclaratorForm)
    (first : Tree.Plain) :
    Runs terms state (moreDeclarators g base form first) (moreDeclarators twin base form first)
      nothing anything := by
  refine .repeating ready fun read _ ready => ?_
  refine .optional ready rfl (fun _ _ ready => ?_) (.pure rfl trivial)
  exact .answering (declarator_runs lasting ready base form) fun _ => rfl

theorem simpleDeclaration_runs (lasting : Lasting terms levels g twin)
    (ready : Ready terms levels (spare + 1) state) (place : Place) :
    Runs terms state (simpleDeclaration g place) (simpleDeclaration twin place) (fun _ => 1)
      anything := by
  refine .behind ready (specifiers_runs lasting ready place) fun read _ ready => ?_
  refine .optional ready rfl (fun _ _ _ => ?_) ?_
  · dsimp only
    split
    · exact .fail
    · exact .pure rfl trivial
  · refine .behind ready (declarator_runs lasting ready read.encoding _) fun first _ ready => ?_
    refine .kind fun found _ => ?_
    split
    · refine .behind ready (memberInitializers_runs lasting ready) fun _ _ ready => ?_
      exact .answering (block_runs lasting ready) fun _ => rfl
    · refine .behind ready (moreDeclarators_runs lasting ready read.encoding _ first.tree) ?_
      exact fun _ _ ready => .answering (.expect ready rfl) fun _ => rfl

/-! ## Templates -/

theorem typeParameterDefault_runs (lasting : Lasting terms levels g twin)
    (ready : Ready terms levels spare state) :
    Runs terms state (typeParameterDefault g) (typeParameterDefault twin) nothing anything := by
  refine .optional ready rfl (fun _ _ ready => ?_) (.pure rfl trivial)
  exact .answering (lasting.typeId ready) fun _ => rfl

theorem typeParameter_runs (lasting : Lasting terms levels g twin)
    (ready : Ready terms levels spare state) :
    Runs terms state (typeParameter g) (typeParameter twin) nothing anything := by
  refine .behind ready .take fun _ _ ready => .behind ready .take? fun named _ ready => ?_
  refine .behind ready (typeParameterDefault_runs lasting ready) fun _ _ ready => ?_
  exact .answering (typeNameEncoding_runs named) fun _ => rfl

theorem templateParameter_runs (lasting : Lasting terms levels g twin)
    (ready : Ready terms levels (spare + 1) state) :
    Runs terms state (templateParameter g) (templateParameter twin) nothing anything := by
  refine .kind fun found _ => .kindBehind fun behind _ => ?_
  split
  · exact typeParameter_runs lasting ready
  · exact .answering (.inTemplate ready fun _ => lasting.parameter) fun _ => rfl

theorem templateParameters_runs (lasting : Lasting terms levels g twin)
    (ready : Ready terms levels (spare + 1) state) :
    Runs terms state (templateParameters g) (templateParameters twin) nothing anything := by
  refine .behind ready .splitShift fun _ _ ready => .sees (fun _ => .pure rfl trivial) fun _ => ?_
  refine .commaSeparated ready fun _ ready => ?_
  exact .answering (templateParameter_runs lasting ready) fun _ => rfl

theorem templateDeclaration_runs (lasting : Lasting terms levels g twin)
    (ready : Ready terms levels (spare + 1) state) (place : Place) :
    Runs terms state (templateDeclaration g place) (templateDeclaration twin place) (fun _ => 1)
      anything := by
  refine .behind ready .take fun _ _ ready => .behind ready (.expect ready rfl) fun _ _ ready => ?_
  refine .behind ready (templateParameters_runs lasting ready) fun _ _ ready => ?_
  refine .behind ready (.expect ready rfl) fun _ _ ready => ?_
  have declared {state : State} (ready : Ready terms levels (spare + 2) state) :=
    (lasting.declaration place ready).any
  refine .behind ready (.underTemplateHeader ready.less fun _ => declared) ?_
  refine fun declaration _ ready => ?_
  split
  · exact .answering .learnTemplate fun _ => rfl
  · exact .pure rfl trivial

/-! ## Declarations -/

theorem namespaceDeclaration_runs (lasting : Lasting terms levels g twin)
    (ready : Ready terms levels (spare + 1) state) :
    Runs terms state (namespaceDeclaration g) (namespaceDeclaration twin) (fun _ => 1)
      anything := by
  refine .behind ready .take fun _ _ ready => .behind ready .take? fun _ _ ready => ?_
  exact .answering (braced_runs lasting ready .brace .namespaceBody) fun _ => rfl

theorem linkageDeclaration_runs (lasting : Lasting terms levels g twin)
    (ready : Ready terms levels (spare + 1) state) (pays : Pays terms state paid)
    (place : Place) :
    Runs terms state (linkageDeclaration g place) (linkageDeclaration twin place) (fun _ => 1)
      anything := by
  refine .takeMore ready pays fun _ _ ready => .behind ready .take fun _ _ ready => ?_
  refine .ask (fun _ => rfl) ?_
  refine .bindIf ready (fun _ => braced_runs lasting ready .brace _)
    (fun _ => lasting.declaration place ready) fun _ _ _ => .pure rfl trivial

theorem accessDeclaration_runs (ready : Ready terms levels spare state) :
    Runs terms state accessDeclaration accessDeclaration (fun _ => 1) anything :=
  .behind ready .take fun _ _ ready => .answering (.expect ready rfl) fun _ => rfl

theorem declaration_runs (lasting : Lasting terms levels g twin)
    (ready : Ready terms levels (spare + 1) state) (place : Place) :
    Runs terms state (declaration g place) (declaration twin place) (fun _ => 1) anything := by
  refine .nested ready fun ready => .kind fun found front => ?_
  split
  · exact namespaceDeclaration_runs lasting ready
  · exact usingForm_runs lasting ready
  · exact templateDeclaration_runs lasting ready place
  · exact typedefDeclaration_runs lasting ready
  · exact .takeFront ready (pays_of_kind front (by decide)) fun _ _ _ => .pure rfl trivial
  · refine .kindBehind fun behind _ => ?_
    split
    · next linkage =>
      rw [Bool.and_eq_true, beq_iff_eq] at linkage
      have pays : Pays terms state.deeper 1 := pays_of_kind (front.trans linkage.1) (by decide)
      exact linkageDeclaration_runs lasting ready pays place
    · split
      · exact accessDeclaration_runs ready
      · exact simpleDeclaration_runs lasting ready place

/-! ## Statements -/

theorem condition_runs (lasting : Lasting terms levels g twin)
    (ready : Ready terms levels spare state) :
    Runs terms state (condition g) (condition twin) (fun _ => 1) anything := by
  refine .behind ready (.expect ready rfl) fun _ _ ready => ?_
  refine .behind ready (lasting.expression ready) fun _ _ ready => ?_
  exact .answering (.any (.expect ready rfl)) fun _ => rfl

theorem alternative_runs (lasting : Lasting terms levels g twin)
    (ready : Ready terms levels (spare + 1) state) :
    Runs terms state (alternative g) (alternative twin) nothing anything := by
  refine .optional ready rfl (fun _ _ ready => ?_) (.pure rfl trivial)
  exact .answering (lasting.statement ready).any fun _ => rfl

theorem ifStatement_runs (lasting : Lasting terms levels g twin)
    (ready : Ready terms levels (spare + 1) state) :
    Runs terms state (ifStatement g) (ifStatement twin) (fun _ => 1) anything := by
  refine .behind ready .take fun _ _ ready => ?_
  refine .behind ready (condition_runs lasting ready) fun _ _ ready => ?_
  refine .behind ready (lasting.statement ready).any fun _ _ ready => ?_
  exact .answering (alternative_runs lasting ready) fun _ => rfl

theorem whileStatement_runs (lasting : Lasting terms levels g twin)
    (ready : Ready terms levels (spare + 1) state) :
    Runs terms state (whileStatement g) (whileStatement twin) (fun _ => 1) anything := by
  refine .behind ready .take fun _ _ ready => ?_
  refine .behind ready (condition_runs lasting ready) fun _ _ ready => ?_
  exact .answering (lasting.statement ready).any fun _ => rfl

theorem doStatement_runs (lasting : Lasting terms levels g twin)
    (ready : Ready terms levels (spare + 1) state) (pays : Pays terms state paid) :
    Runs terms state (doStatement g) (doStatement twin) (fun _ => 1) anything := by
  refine .takeMore ready pays fun _ _ ready => ?_
  refine .behind ready (lasting.statement ready) fun _ _ ready => ?_
  refine .behind ready (.any (.expect ready rfl)) fun _ _ ready => ?_
  refine .behind ready (condition_runs lasting ready).any fun _ _ ready => ?_
  exact .answering (.any (.expect ready rfl)) fun _ => rfl

theorem optionalExpression_runs (lasting : Lasting terms levels g twin)
    (ready : Ready terms levels (spare + 1) state) (closing : Token.Kind) :
    Runs terms state (optionalExpression g closing) (optionalExpression twin closing) nothing
      anything :=
  .sees (fun _ => .pure rfl trivial) fun _ => lasting.expression ready

theorem forStatement_runs (lasting : Lasting terms levels g twin)
    (ready : Ready terms levels (spare + 1) state) :
    Runs terms state (forStatement g) (forStatement twin) (fun _ => 1) anything := by
  refine .behind ready .take fun _ _ ready => .behind ready (.expect ready rfl) fun _ _ ready => ?_
  refine .behind ready (lasting.statement ready).any fun _ _ ready => ?_
  refine .behind ready (optionalExpression_runs lasting ready .semicolon) fun _ _ ready => ?_
  refine .behind ready (.any (.expect ready rfl)) fun _ _ ready => ?_
  refine .behind ready (optionalExpression_runs lasting ready .closeParen) fun _ _ ready => ?_
  refine .behind ready (.any (.expect ready rfl)) fun _ _ ready => ?_
  exact .answering (lasting.statement ready).any fun _ => rfl

theorem returnStatement_runs (lasting : Lasting terms levels g twin)
    (ready : Ready terms levels (spare + 1) state) :
    Runs terms state (returnStatement g) (returnStatement twin) (fun _ => 1) anything := by
  refine .behind ready .take fun _ _ ready => ?_
  refine .behind ready (optionalExpression_runs lasting ready .semicolon) fun _ _ ready => ?_
  exact .answering (.expect ready rfl) fun _ => rfl

theorem jumpStatement_runs (ready : Ready terms levels spare state) (construct : Construct) :
    Runs terms state (jumpStatement construct) (jumpStatement construct) (fun _ => 1) anything :=
  .behind ready .take fun _ _ ready => .answering (.expect ready rfl) fun _ => rfl

theorem expressionStatement_runs (lasting : Lasting terms levels g twin)
    (ready : Ready terms levels (spare + 1) state) :
    Runs terms state (expressionStatement g) (expressionStatement twin) (fun _ => 1) anything := by
  refine .behind ready (lasting.expression ready) fun _ _ ready => ?_
  exact .answering (.expect ready rfl) fun _ => rfl

theorem plainStatement_runs (lasting : Lasting terms levels g twin)
    (ready : Ready terms levels (spare + 1) state) (next : Token.Kind) :
    Runs terms state (plainStatement g next) (plainStatement twin next) (fun _ => 1)
      anything := by
  unfold plainStatement
  split
  · exact simpleDeclaration_runs lasting ready .block
  · refine .asks fun declares => ?_
    split
    · exact simpleDeclaration_runs lasting ready .block
    · exact expressionStatement_runs lasting ready

theorem statement_runs (lasting : Lasting terms levels g twin)
    (ready : Ready terms levels (spare + 1) state) :
    Runs terms state (statement g) (statement twin) (fun _ => 1) anything := by
  refine .nested ready fun ready => .kind fun found front => ?_
  split
  · exact block_runs lasting ready
  · exact ifStatement_runs lasting ready
  · exact whileStatement_runs lasting ready
  · exact doStatement_runs lasting ready (pays_of_kind front (by decide))
  · exact forStatement_runs lasting ready
  · exact returnStatement_runs lasting ready
  · exact jumpStatement_runs ready .breakStatement
  · exact jumpStatement_runs ready .continueStatement
  · exact .takeFront ready (pays_of_kind front (by decide)) fun _ _ _ => .pure rfl trivial
  · exact usingForm_runs lasting ready
  · exact typedefDeclaration_runs lasting ready
  · exact plainStatement_runs lasting ready found

end Grammar
end CppNames
