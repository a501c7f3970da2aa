import CppNames.Grammar.Statement
import CppNames.Proofs.Travel.Expression

namespace CppNames
namespace Grammar

/-!
# The way through declarations and statements

A class specifier and a declaration under a template header are where the way of a parser passes
more than tokens.  The productions of a level recur into the level below, so every production goes
a parser's way, by induction on the level.
-/

namespace Journeys

variable {g : Productions} {place : Where} {start state : State}

section

variable (goes : Journeys g)
include goes

/-! ## Declaration lists -/

theorem declarationList (region : Place) : Travels place (declarationList g region) := by
  refine .repeatFrom fun declarations => .kind fun found => ?_
  split
  · exact .pure
  · split
    · exact .reportThenPass rfl .pure
    · exact .pure
  · exact .bind (.recovering (goes.declaration region).ofAnywhere) fun _ => .pure

theorem braced (construct : Construct) (region : Place) :
    Travels place (braced g construct region) :=
  .bind (.expect rfl) fun _ => .bind (goes.declarationList region) fun _ =>
    .bind (.expect rfl) fun _ => .pure

/-! ## Classes and enumerations -/

theorem baseClause : Travels noClassKey (baseClause g) := by
  refine .bind .take fun colon => .bind (.commaSeparated ?_) fun bases => .pure
  refine .bind (.takeRun fun kind passes => ?_) fun _ => .bind (goes.name true) fun _ => .pure
  exact isClassKey_eq_false (by decide) (by decide) (by decide) passes

/-- The name of a class goes into the registry where a header waits for it. -/
theorem className (reached : Reached start state)
    (isKey : isClassKey (kindOf state.tokens) = true) :
    Reached start (stateAfter (className g state.underHeader state.behindClassKey)) := by
  rcases goes.level with ⟨level, rfl⟩
  have begun := reached.specifier isKey
  have names : Travels anywhere (Grammar.name (productions level) true) := goes.name true
  have named := names start state.behindClassKey begun trivial
  change Reached start (stateAfter ((if [Token.Kind.identifier, .colonColon].contains
    (kindOf state.behindClassKey.tokens) then _ else _ : Production (Tree.Plain × Encoding))
      state.behindClassKey))
  split
  · cases result : Grammar.name (productions level) true state.behindClassKey with
    | error stop behind =>
      rw [bind_of_error result]
      rw [result] at named
      exact named
    | ok answer behind =>
      rw [bind_of_ok result]
      rw [result] at named
      cases last : lastIdentifier? answer.tree with
      | none => exact named
      | some text =>
        cases headed : state.underHeader with
        | false => exact named.step (.aside ⟨rfl, rfl, rfl, rfl, rfl⟩)
        | true =>
          have learned := Reached.learnClass reached isKey headed ⟨level, answer, result, last⟩ named
          exact learned.step (.aside ⟨rfl, rfl, rfl, rfl, rfl⟩)
  · have fresh : Travels anywhere (do
      return ((Tree.nil : Tree.Plain), ← Grammar.anonymousName)) :=
      .bind .anonymousName fun _ => .pure
    exact fresh start _ begun trivial

/-- Behind its name a class goes on with its base classes and its body. -/
theorem behindClassName
    (reached : Reached start (stateAfter (Grammar.className g state.underHeader state.behindClassKey))) :
    Reached start (stateAfter (Grammar.classSpecifier g state)) := by
  have closed : ∀ keyword named bases : Tree.Plain, ∀ encoding : Encoding, Travels anywhere (do
      let body ← if ← sees .openBrace then Grammar.braced g .classBody .classBody else pure Tree.nil
      return (⟨Tree.encodedList .classSpec (some encoding) none [keyword, named, bases, body],
        encoding⟩ : Encoded)) :=
    fun _ _ _ _ => .seesBind (goes.braced .classBody .classBody) .pure fun _ => .pure
  change Reached start (stateAfter ((Grammar.className g state.underHeader >>= _)
    state.behindClassKey))
  refine reached.bind fun answer => ?_
  exact .seesBind (goes.baseClause.ofSeen rfl) .pure fun bases => closed _ answer.1 bases answer.2

theorem classSpecifier :
    Travels (fun tokens => isClassKey (kindOf tokens) = true) (classSpecifier g) :=
  fun _ _ reached isKey => goes.behindClassName (goes.className reached isKey)

theorem enumerator : Travels place (enumerator g) := by
  refine .bind (.expect rfl) fun identifier => .optional rfl (fun equals => ?_) .pure
  exact .bind goes.conditionalExpression fun _ => .pure

theorem enumerators : Travels place (enumerators g) := by
  refine .repeatFrom fun items => .sees .pure (.bind goes.enumerator fun item => ?_)
  exact .optional rfl (fun _ => .pure) .pure

theorem enumBody : Travels place (enumBody g) := by
  refine .optional rfl (fun opening => ?_) .pure
  exact .bind goes.enumerators fun _ => .bind (.expect rfl) fun _ => .pure

omit goes in
theorem typeNameEncoding (named : Option Tree.Plain) : Travels place (typeNameEncoding named) := by
  cases named with
  | none => exact .anonymousName
  | some identifier => exact .bind (.learnType _) fun _ => .pure

theorem enumSpecifier : Travels (inFrontOf .kwEnum) (enumSpecifier g) :=
  .bind (.takeOf rfl) fun _ => .bind (.take? rfl) fun named =>
    .bind (typeNameEncoding named) fun _ => .bind goes.enumBody fun _ => .pure

/-! ## Specifiers and types -/

theorem specifier (region : Place) (read : SpecifierWords) :
    Travels place (specifier g region read) := by
  have classes : ∀ {kind : Token.Kind}, isClassKey kind = true →
      Travels (fun tokens => place tokens ∧ kindOf tokens = kind)
        (do return Turn.again (read.withNamed (← Grammar.classSpecifier g))) := by
    intro kind isKey
    refine .bind (goes.classSpecifier.restrict fun tokens begins => ?_) fun _ => .pure
    rw [begins.2]
    exact isKey
  have constructorOrName : ∀ {other : Where}, Travels other (do
      if region.allowsConstructor && (← asks atSpecialMember) then return Turn.done read
      else return Turn.again (read.withNamed (← Grammar.name g true))) := by
    intro other
    refine .asks fun special => ?_
    split
    · exact .pure
    · exact .bind (goes.name true) fun _ => .pure
  refine .kind fun next => ?_
  split
  · next storage =>
    have plain := isClassKey_eq_false rfl rfl rfl (Bool.and_eq_true_iff.mp storage).1
    exact .bind (.takeSeen plain) fun _ => .pure
  · split
    · next qualifier =>
      exact .bind (.takeSeen (isClassKey_of_isCvQualifier _ qualifier)) fun _ => .pure
    · split
      · next builtin =>
        have plain := isClassKey_of_isBuiltinType _ (Bool.and_eq_true_iff.mp builtin).1
        exact .counting fun _ => .bind (.takeSeen plain) fun _ => .pure
      · split
        · exact .pure
        · split
          · exact classes rfl
          · exact classes rfl
          · exact classes rfl
          · exact .bind (goes.enumSpecifier.restrict fun _ begins => begins.2) fun _ => .pure
          · exact .bind (.takeSeen rfl) fun _ => .bind (goes.name true) fun _ => .pure
          · exact constructorOrName
          · exact constructorOrName
          · exact .pure

theorem specifiers (region : Place) : Travels place (specifiers g region) :=
  .bind (.repeatFrom fun read => goes.specifier region read) fun _ => .pure

theorem requiredType (region : Place) : Travels place (requiredType g region) := by
  refine .bind (goes.specifiers region) fun read => ?_
  split
  · exact .fail
  · exact .pure

theorem parameterDeclaration : Travels place (parameterDeclaration g) :=
  .bind (goes.requiredType .parameter) fun _ => .bind (goes.declarator _ .parameter) fun _ => .pure

theorem wholeTypeId : Travels place (Grammar.typeId g) := by
  refine .bind (goes.requiredType .typeId) fun read => .kind fun found => ?_
  split
  · exact .bind (goes.declarator _ .abstract) fun _ => .pure
  · exact .pure

/-! ## Simple declarations -/

theorem usingForm : Travels noClassKey (usingForm g) := by
  refine .bind .take fun keyword => .optional rfl (fun nominates => ?_) ?_
  · exact .bind (goes.name false) fun _ => .bind (.expect rfl) fun _ => .pure
  · exact .bind (.discard (.take? rfl)) fun _ => .bind (goes.name false) fun _ =>
      .bind (.expect rfl) fun _ => .pure

theorem typedefDeclarators (base : Encoding) : Travels place (typedefDeclarators g base) := by
  refine .commaSeparated (.bind (goes.declarator base .named) fun declared => ?_)
  cases declared.name with
  | none => exact .pure
  | some text => exact .bind (.learnType text) fun _ => .pure

theorem typedefDeclaration : Travels noClassKey (typedefDeclaration g) :=
  .bind .take fun _ => .bind (goes.specifiers .namespaceBody) fun _ =>
    .bind (goes.typedefDeclarators _) fun _ => .bind (.expect rfl) fun _ => .pure

theorem statements : Travels place (statements g) := by
  refine .repeatFrom fun read => .kind fun found => ?_
  split
  · exact .pure
  · exact .bind (.recovering goes.statement.ofAnywhere) fun _ => .pure

theorem block : Travels place (block g) :=
  .bind (.expect rfl) fun _ => .bind (.inBlock goes.statements) fun _ =>
    .bind (.expect rfl) fun _ => .pure

theorem memberInitializer : Travels place (memberInitializer g) :=
  .bind (goes.name true) fun _ => .bind (.expect rfl) fun _ => .bind goes.arguments fun _ =>
    .bind (.expect rfl) fun _ => .pure

theorem memberInitializers : Travels place (memberInitializers g) := by
  refine .optional rfl (fun colon => .bind (.commaSeparated ?_) fun _ => .pure) .pure
  exact .bind goes.memberInitializer fun _ => .pure

theorem moreDeclarators (base : Encoding) (form : DeclaratorForm) (first : Tree.Plain) :
    Travels place (moreDeclarators g base form first) := by
  refine .repeatFrom fun read => .optional rfl (fun comma => ?_) .pure
  exact .bind (goes.declarator base form) fun _ => .pure

theorem simpleDeclaration (region : Place) : Travels place (simpleDeclaration g region) := by
  refine .bind (goes.specifiers region) fun read => .optional rfl (fun semicolon => ?_) ?_
  · dsimp only
    split
    · exact .fail
    · exact .pure
  · have formed : ∀ form : DeclaratorForm, Travels anywhere (do
        let first ← Grammar.declarator g read.encoding form
        if first.isFunction && [.openBrace, .colon].contains (← kind) then
          let members ← Grammar.memberInitializers g
          let body ← Grammar.block g
          return Tree.list .declaration
            ([read.storage, read.type, first.tree] ++ members ++ [body])
        else
          let declarators ← Grammar.moreDeclarators g read.encoding form first.tree
          let semicolon ← expect .semicolon ";"
          return Tree.list .declaration
            [read.storage, read.type, Tree.seq declarators, semicolon]) := by
      intro form
      refine .bind (goes.declarator read.encoding form) fun first => .kind fun found => ?_
      split
      · exact .bind goes.memberInitializers fun _ => .bind goes.block fun _ => .pure
      · exact .bind (goes.moreDeclarators _ form _) fun _ => .bind (.expect rfl) fun _ => .pure
    by_cases inClass : (region == .classBody) = true
    · rw [if_pos inClass]
      exact formed .member
    · rw [if_neg inClass]
      exact formed .named

/-! ## Templates -/

theorem typeParameterDefault : Travels place (typeParameterDefault g) :=
  .optional rfl (fun _ => .bind goes.typeId fun _ => .pure) .pure

theorem typeParameter :
    Travels (fun tokens => followsTypeKeyword (kindOf (tokens.drop 1)) = true)
      (typeParameter g) := by
  have keyword : Travels (fun tokens => followsTypeKeyword (kindOf (tokens.drop 1)) = true) take :=
    fun _ _ reached follows => reached.step (.typeKeyword follows)
  exact .bind keyword fun _ => .bind (.take? rfl) fun named =>
    .bind goes.typeParameterDefault fun _ => .bind (typeNameEncoding named) fun _ => .pure

theorem templateParameter : Travels place (templateParameter g) := by
  refine .kind fun found => .kindBehind fun foundBehind => ?_
  split
  · next keyword =>
    refine goes.typeParameter.restrict fun tokens begins => ?_
    rw [begins.2]
    exact (Bool.and_eq_true_iff.mp keyword).2
  · exact .bind (.inTemplate goes.parameter.ofAnywhere) fun _ => .pure

theorem templateParameters : Travels place (templateParameters g) := by
  refine .bind .splitShift fun _ => .sees .pure (.commaSeparated ?_)
  exact .bind goes.templateParameter fun _ => .pure

theorem templateHeader : Travels (inFrontOf .kwTemplate) (templateHeader g) :=
  .bind (.takeOf rfl) fun _ => .bind (.expect rfl) fun _ => .bind goes.templateParameters fun _ =>
    .bind (.expect rfl) fun _ => .pure

omit goes in
/-- A declaration under a template header, with the header as a production of its own. -/
theorem templateDeclaration_eq (g : Productions) (region : Place) :
    Grammar.templateDeclaration g region = (do
      let header ← Grammar.templateHeader g
      let declaration ← underTemplateHeader (g.declaration region)
      (declaredFunction? declaration).elim (pure ()) learnTemplate
      return Tree.list .templateDecl (header ++ [declaration])) := by
  unfold Grammar.templateDeclaration Grammar.templateHeader
  simp only [bind_assoc, pure_bind]
  refine bind_congr fun keyword => bind_congr fun opening => bind_congr fun parameters => ?_
  refine bind_congr fun closing => bind_congr fun declaration => ?_
  cases declaredFunction? declaration <;> rfl

theorem templateDeclaration (region : Place) :
    Travels (inFrontOf .kwTemplate) (templateDeclaration g region) := by
  intro start state reached begins
  rw [templateDeclaration_eq]
  have header := goes.templateHeader start state reached begins
  cases opens : Grammar.templateHeader g state with
  | error stop opened =>
    rw [bind_of_error opens]
    rw [opens] at header
    exact header
  | ok trees opened =>
    rw [bind_of_ok opens]
    rw [opens] at header
    rcases goes.level with ⟨level, rfl⟩
    have readsHeader : ReadsHeader state opened := ⟨begins, level, trees, opens⟩
    have body := goes.declaration region start opened.headed (.enter reached readsHeader header) trivial
    cases declares : (productions level).declaration region opened.headed with
    | error stop behind =>
      rw [bind_of_error (Travels.underTemplateHeader_of_error declares)]
      rw [declares] at body
      exact body.leave
    | ok tree behind =>
      rw [bind_of_ok (Travels.underTemplateHeader_of_ok declares)]
      rw [declares] at body
      cases named : declaredFunction? tree with
      | none => exact body.leave
      | some text =>
        exact .learnFunction reached readsHeader ⟨level, region, tree, declares, named⟩ body.leave

/-! ## Declarations -/

theorem namespaceDeclaration : Travels noClassKey (namespaceDeclaration g) :=
  .bind .take fun _ => .bind (.take? rfl) fun _ =>
    .bind (goes.braced .brace .namespaceBody) fun _ => .pure

theorem linkageDeclaration (region : Place) :
    Travels (fun tokens => noClassKey tokens ∧ noClassKey (tokens.drop 1))
      (linkageDeclaration g region) := by
  refine .takeThen noClassKey (fun _ begins => begins) fun _ => .bind .take fun _ => ?_
  exact .seesBind (goes.braced .brace _) (goes.declaration region) fun _ => .pure

omit goes in
theorem accessDeclaration : Travels noClassKey accessDeclaration :=
  .bind .take fun _ => .bind (.expect rfl) fun _ => .pure

theorem wholeDeclaration (region : Place) : Travels place (Grammar.declaration g region) := by
  refine .nested (.kind fun found => ?_)
  split
  · exact goes.namespaceDeclaration.ofSeen rfl
  · exact goes.usingForm.ofSeen rfl
  · exact (goes.templateDeclaration region).restrict fun _ begins => begins.2
  · exact goes.typedefDeclaration.ofSeen rfl
  · exact .bind (.takeSeen rfl) fun _ => .pure
  · refine .kindBehind fun foundBehind => ?_
    split
    · next linkage =>
      have both := Bool.and_eq_true_iff.mp linkage
      refine (goes.linkageDeclaration region).restrict fun tokens begins => ⟨?_, ?_⟩
      · exact noClassKey_of_kindOf (begins.1.2.trans (eq_of_beq both.1)) rfl
      · exact noClassKey_of_kindOf (begins.2.trans (eq_of_beq both.2)) rfl
    · split
      · next access =>
        have plain := isClassKey_eq_false rfl rfl rfl (Bool.and_eq_true_iff.mp access).1
        exact (accessDeclaration.ofSeen plain).restrict fun _ begins => begins.1
      · exact goes.simpleDeclaration region

/-! ## Statements -/

theorem condition : Travels place (condition g) :=
  .bind (.expect rfl) fun _ => .bind goes.expression fun _ => .bind (.expect rfl) fun _ => .pure

theorem alternative : Travels place (alternative g) :=
  .optional rfl (fun _ => .bind goes.statement fun _ => .pure) .pure

theorem ifStatement : Travels noClassKey (ifStatement g) :=
  .bind .take fun _ => .bind goes.condition fun _ => .bind goes.statement fun _ =>
    .bind goes.alternative fun _ => .pure

theorem whileStatement : Travels noClassKey (whileStatement g) :=
  .bind .take fun _ => .bind goes.condition fun _ => .bind goes.statement fun _ => .pure

theorem doStatement : Travels noClassKey (doStatement g) :=
  .bind .take fun _ => .bind goes.statement fun _ => .bind (.expect rfl) fun _ =>
    .bind goes.condition fun _ => .bind (.expect rfl) fun _ => .pure

theorem optionalExpression (closing : Token.Kind) :
    Travels place (optionalExpression g closing) :=
  .sees .pure goes.expression.ofAnywhere

theorem forStatement : Travels noClassKey (forStatement g) :=
  .bind .take fun _ => .bind (.expect rfl) fun _ => .bind goes.statement fun _ =>
    .bind (goes.optionalExpression _) fun _ => .bind (.expect rfl) fun _ =>
    .bind (goes.optionalExpression _) fun _ => .bind (.expect rfl) fun _ =>
    .bind goes.statement fun _ => .pure

theorem returnStatement : Travels noClassKey (returnStatement g) :=
  .bind .take fun _ => .bind (goes.optionalExpression _) fun _ => .bind (.expect rfl) fun _ => .pure

omit goes in
theorem jumpStatement (construct : Construct) : Travels noClassKey (jumpStatement construct) :=
  .bind .take fun _ => .bind (.expect rfl) fun _ => .pure

theorem expressionStatement : Travels place (expressionStatement g) :=
  .bind goes.expression.ofAnywhere fun _ => .bind (.expect rfl) fun _ => .pure

theorem plainStatement (next : Token.Kind) : Travels place (plainStatement g next) := by
  unfold Grammar.plainStatement
  split
  · exact goes.simpleDeclaration .block
  · refine .asks fun declares => ?_
    split
    · exact goes.simpleDeclaration .block
    · exact goes.expressionStatement

theorem wholeStatement : Travels place (Grammar.statement g) := by
  refine .nested (.kind fun found => ?_)
  split
  · exact goes.block
  · exact goes.ifStatement.ofSeen rfl
  · exact goes.whileStatement.ofSeen rfl
  · exact goes.doStatement.ofSeen rfl
  · exact goes.forStatement.ofSeen rfl
  · exact goes.returnStatement.ofSeen rfl
  · exact (jumpStatement _).ofSeen rfl
  · exact (jumpStatement _).ofSeen rfl
  · exact .bind (.takeSeen rfl) fun _ => .pure
  · exact goes.usingForm.ofSeen rfl
  · exact goes.typedefDeclaration.ofSeen rfl
  · exact goes.plainStatement found

end

end Journeys

/-! ## Levels -/

theorem journeys_productions (level : Nat) : Journeys (productions level) := by
  induction level with
  | zero =>
    exact
      { level := ⟨0, rfl⟩
        typeId := .throw
        assignment := .throw
        expression := .throw
        cast := .throw
        binary := fun _ => .throw
        initializers := .throw
        parameter := .throw
        declaration := fun _ => .throw
        statement := .throw }
  | succ level ih =>
    exact
      { level := ⟨level + 1, rfl⟩
        typeId := ih.wholeTypeId
        assignment := ih.assignmentExpression
        expression := ih.commaExpression
        cast := ih.castExpression
        binary := ih.binaryExpression
        initializers := ih.initializerList
        parameter := ih.parameterDeclaration
        declaration := ih.wholeDeclaration
        statement := ih.wholeStatement }

/-- However the parser ends, it ends in a state on the way from where it began. -/
theorem unit_reached (start : State) : Reached start (stateAfter (unit start)) := by
  have travels : Travels anywhere unit := by
    refine .ask (fun _ => rfl) fun state => ?_
    exact .bind ((journeys_productions _).declarationList .file) fun _ => .pure
  exact travels start start .start trivial

end Grammar
end CppNames
