import CppNames.Proofs.Travel.Basic

namespace CppNames
namespace Grammar

/-!
# The way through names, expressions and declarators

None of these productions begins a class specifier or a template header by itself.  Each token that
they pass was looked at before, or is expected, and it is no keyword of a class.
-/

/-- The recursive productions of a level go a parser's way. -/
structure Journeys (g : Productions) : Prop where
  level : ∃ level, g = productions level
  typeId : Travels anywhere g.typeId
  assignment : Travels anywhere g.assignment
  expression : Travels anywhere g.expression
  cast : Travels anywhere g.cast
  binary : ∀ minimum, Travels anywhere (g.binary minimum)
  initializers : Travels (inFrontOf .openBrace) g.initializers
  parameter : Travels anywhere g.parameter
  declaration : ∀ place, Travels anywhere (g.declaration place)
  statement : Travels anywhere g.statement

theorem isClassKey_of_isBuiltinType (kind : Token.Kind) (builtin : kind.isBuiltinType = true) :
    isClassKey kind = false :=
  isClassKey_eq_false rfl rfl rfl builtin

theorem isClassKey_of_isCvQualifier (kind : Token.Kind) (qualifier : kind.isCvQualifier = true) :
    isClassKey kind = false :=
  isClassKey_eq_false rfl rfl rfl qualifier

theorem noClassKey_of_atParenthesizedType {state : State}
    (holds : atParenthesizedType state = true) : noClassKey state.tokens :=
  noClassKey_of_kindOf (eq_of_beq (Bool.and_eq_true_iff.mp holds).1) rfl

theorem noClassKey_of_atAssignment {state : State} (holds : atAssignment state = true) :
    noClassKey state.tokens :=
  isClassKey_eq_false (by decide) (by decide) (by decide) (Bool.and_eq_true_iff.mp holds).1

theorem isClassKey_of_precedence? {kind : Token.Kind} {inTemplateArguments : Bool} {level : Nat}
    (binary : precedence? kind inTemplateArguments = some level) : isClassKey kind = false :=
  @isClassKey_eq_false (fun kind => (precedence? kind inTemplateArguments).isSome) rfl rfl rfl kind
    (Option.isSome_of_eq_some binary)

/-- An opening bracket that was looked at, and the closing one that was seen behind it. -/
theorem Travels.brackets {β : Type} {place : Where} {found : Token.Kind}
    {next : Tree.Plain → Tree.Plain → Production β} (closes : (found == .closeBracket) = true)
    (rest : ∀ opening closing, Travels anywhere (next opening closing)) :
    Travels (fun tokens => (place tokens ∧ kindOf tokens = .openBracket) ∧
        kindOf (tokens.drop 1) = found)
      (do
        let opening ← Grammar.take
        let closing ← Grammar.take
        next opening closing) := by
  refine .takeThen (inFrontOf .closeBracket) (fun tokens begins => ⟨?_, ?_⟩) fun opening => ?_
  · exact noClassKey_of_kindOf begins.1.2 rfl
  · exact begins.2.trans (eq_of_beq closes)
  · exact .bind (.takeOf rfl) (rest opening)

namespace Journeys

variable {g : Productions} {place : Where}

section

variable (goes : Journeys g)
include goes

/-! ## Names -/

theorem templateArgument : Travels place (templateArgument g) := by
  refine .asks fun isType => ?_
  split
  · exact goes.typeId.ofAnywhere
  · exact .bind goes.assignment.ofAnywhere fun _ => .pure

theorem templateArgumentList : Travels place (templateArgumentList g) := by
  refine .bind .splitShift fun _ => .sees .pure (.repeatFrom fun parts => ?_)
  exact .bind goes.templateArgument fun _ => .optional rfl (fun _ => .pure) .pure

theorem templateArguments : Travels (inFrontOf .less) (templateArguments g) :=
  .bind (.takeOf rfl) fun _ => .bind (.inTemplate goes.templateArgumentList) fun _ =>
    .bind (.expect rfl) fun _ => .pure

theorem identifierComponent (inType : Bool) :
    Travels (inFrontOf .identifier) (identifierComponent g inType) := by
  refine .bind (.takeOf rfl) fun _ => .asks fun isTemplate => .sees ?_ .pure
  simp only [Bool.true_and]
  split
  · refine .bind (goes.templateArguments.restrict fun _ begins => begins.2) fun _ => .pure
  · exact .pure

omit goes in
theorem destructorComponent : Travels (inFrontOf .tilde) destructorComponent :=
  .bind (.takeOf rfl) fun _ => .bind (.expect rfl) fun _ => .pure

omit goes in
theorem bracketOperator {closing : Token.Kind} {shown : String}
    (plain : isClassKey closing = false) :
    Travels noClassKey (bracketOperator closing shown) :=
  .bind .take fun _ => .bind (.expect plain) fun _ => .pure

omit goes in
theorem allocationOperator : Travels noClassKey allocationOperator := by
  refine .bind .take fun keyword => ?_
  refine .sees (.kindBehind fun found => ?_) (.kindBehind fun found => .pure)
  simp only [Bool.true_and]
  split
  · next closes => exact .brackets closes fun _ _ => .pure
  · exact .pure

theorem operatorSuffix : Travels place (operatorSuffix g) := by
  refine .kind fun found => ?_
  split
  · exact (bracketOperator rfl).ofSeen rfl
  · exact (bracketOperator rfl).ofSeen rfl
  · exact allocationOperator.ofSeen rfl
  · exact allocationOperator.ofSeen rfl
  · split
    · next punctuation =>
      exact .bind (.takeSeen (isClassKey_eq_false (by decide) (by decide) (by decide) punctuation))
        fun _ => .pure
    · exact .bind goes.typeId.ofAnywhere fun _ => .reading fun _ => .pure

theorem operatorComponent : Travels (inFrontOf .kwOperator) (operatorComponent g) :=
  .bind (.takeOf rfl) fun _ => .bind goes.operatorSuffix fun _ => .pure

theorem nameComponent (inType : Bool) : Travels place (nameComponent g inType) := by
  refine .kind fun found => ?_
  split
  · exact (goes.identifierComponent inType).restrict fun _ begins => begins.2
  · exact destructorComponent.restrict fun _ begins => begins.2
  · exact goes.operatorComponent.restrict fun _ begins => begins.2
  · exact .fail

theorem nameComponents (inType : Bool) (first : NameParts) :
    Travels place (nameComponents g inType first) := by
  refine .repeatFrom fun parts => .bind (goes.nameComponent inType) fun component => ?_
  refine .sees (.kindBehind fun found => ?_) (.kindBehind fun found => .pure)
  simp only [Bool.true_and]
  split
  · refine .takeThen anywhere (fun tokens begins => ⟨?_, trivial⟩) fun colons => ?_
    · exact noClassKey_of_kindOf begins.1.2 rfl
    · exact .optional rfl (fun _ => .pure) .pure
  · exact .pure

theorem name (inType : Bool) : Travels place (name g inType) :=
  .optional rfl (fun _ => .bind (goes.nameComponents inType _) fun _ => .pure)
    (.bind (goes.nameComponents inType _) fun _ => .pure)

/-! ## Arguments and primary expressions -/

theorem arguments : Travels place (arguments g) := by
  refine .sees .pure (.bind (.inParentheses (.commaSeparated ?_)) fun _ => .pure)
  exact .bind goes.assignment fun _ => .pure

theorem callCast (type : Tree.Plain) (encoding : Encoding) :
    Travels place (callCast g type encoding) :=
  .bind (.expect rfl) fun _ => .bind goes.arguments fun _ => .bind (.expect rfl) fun _ => .pure

theorem parenthesized : Travels noClassKey (parenthesized g) :=
  .bind .take fun _ => .bind (.inParentheses goes.expression) fun _ =>
    .bind (.expect rfl) fun _ => .pure

theorem typeidOperand : Travels noClassKey (typeidOperand g) := by
  have closed : ∀ keyword opening operand : Tree.Plain, Travels anywhere (do
      let closing ← expect .closeParen ")"
      return Tree.list .typeidExpr [keyword, opening, operand, closing]) :=
    fun _ _ _ => .bind (.expect rfl) fun _ => .pure
  refine .bind .take fun keyword => .bind (.expect rfl) fun opening => .asks fun isType => ?_
  split
  · exact .bind (.map goes.typeId) (closed keyword opening)
  · exact .bind goes.expression (closed keyword opening)

theorem builtinCast : Travels place (builtinCast g) :=
  .bind (.takeRun isClassKey_of_isBuiltinType) fun _ => .counting fun _ => goes.callCast _ _

theorem nameOrCast : Travels place (nameOrCast g) := by
  refine .bind (goes.name false) fun named => .reading fun last => .reading fun plain => ?_
  refine .asks fun isType => .sees ?_ ?_
  · split
    · exact goes.callCast _ _
    · exact .pure
  · simp only [Bool.and_false]
    exact .pure

theorem primary : Travels place (primary g) := by
  refine .kind fun found => ?_
  split
  · next literal => exact .takeSeen (isClassKey_eq_false rfl rfl rfl literal)
  · split
    · exact .takeSeen rfl
    · exact .takeSeen rfl
    · exact .takeSeen rfl
    · exact goes.parenthesized.ofSeen rfl
    · exact goes.typeidOperand.ofSeen rfl
    · exact goes.nameOrCast
    · exact goes.nameOrCast
    · exact goes.nameOrCast
    · exact goes.nameOrCast
    · split
      · exact goes.builtinCast
      · exact .fail

/-! ## Postfix, unary and binary expressions -/

theorem postfixLink (left : Tree.Plain) : Travels place (postfixLink g left) := by
  have member : ∀ construct, Travels noClassKey (do
      descend
      let operator ← take
      let member ← Grammar.name g false
      return Turn.again (Tree.list construct [left, operator, member.tree])) :=
    fun _ => .descendThen (.bind .take fun _ => .bind (goes.name false) fun _ => .pure)
  have operator : Travels noClassKey (do
      descend
      let operator ← take
      return Turn.again (Tree.list .postfixExpr [left, operator])) :=
    .descendThen (.bind .take fun _ => .pure)
  refine .kind fun found => ?_
  split
  · exact .descendThen (.bind (.takeSeen rfl) fun _ => .bind goes.expression fun _ =>
      .bind (.expect rfl) fun _ => .pure)
  · exact .descendThen (.bind (.takeSeen rfl) fun _ => .bind goes.arguments fun _ =>
      .bind (.expect rfl) fun _ => .pure)
  · exact (member _).ofSeen rfl
  · exact (member _).ofSeen rfl
  · exact operator.ofSeen rfl
  · exact operator.ofSeen rfl
  · exact .pure

theorem postfixExpression : Travels place (postfixExpression g) :=
  .chained (.bind goes.primary fun _ => .repeatFrom fun left => goes.postfixLink left)

theorem prefixCast : Travels noClassKey (prefixCast g) :=
  .bind .take fun _ => .bind goes.typeId fun _ => .bind (.expect rfl) fun _ =>
    .bind goes.cast fun _ => .pure

theorem unary : Travels noClassKey (unary g) := .bind .take fun _ => .bind goes.cast fun _ => .pure

theorem sizeofOperand : Travels noClassKey (sizeofOperand g) := by
  refine .bind .take fun keyword => .asksForToken (fun _ => noClassKey_of_atParenthesizedType) ?_ ?_
  · exact .bind .take fun _ => .bind goes.typeId fun _ => .bind (.expect rfl) fun _ => .pure
  · exact .bind goes.cast fun _ => .pure

theorem newObject : Travels noClassKey (newObject g) := by
  refine .bind .take fun keyword => .bind goes.typeId fun type =>
    .optional rfl (fun opening => ?_) .pure
  exact .bind goes.arguments fun _ => .bind (.expect rfl) fun _ => .pure

theorem deleteObject : Travels noClassKey (deleteObject g) := by
  refine .bind .take fun keyword => ?_
  have single : Travels anywhere (do
      let operand ← g.cast
      return Tree.list .deleteExpr [keyword, operand]) := .bind goes.cast fun _ => .pure
  refine .sees (.kindBehind fun found => ?_) (.kindBehind fun found => single.ofAnywhere)
  simp only [Bool.true_and]
  split
  · next closes => exact .brackets closes fun _ _ => .bind goes.cast fun _ => .pure
  · exact single.ofAnywhere

theorem castExpression : Travels place (castExpression g) := by
  refine .nested (.kind fun found => ?_)
  split
  · next unary =>
    exact goes.unary.ofSeen (isClassKey_eq_false (by decide) (by decide) (by decide) unary)
  · split
    · refine .asks fun casts => ?_
      split
      · exact goes.prefixCast.ofSeen rfl
      · exact goes.postfixExpression
    · exact goes.sizeofOperand.ofSeen rfl
    · exact goes.newObject.ofSeen rfl
    · exact goes.deleteObject.ofSeen rfl
    · exact goes.postfixExpression

theorem binaryLink (level : Nat) (left : Tree.Plain) : Travels place (binaryLink g level left) := by
  refine .askTelling (fun answer tokens => answer.isSome = true → noClassKey tokens)
    (fun _ => rfl) (fun state _ binary => ?_) fun answer => ?_
  · rcases Option.isSome_iff_exists.mp binary with ⟨level, binary⟩
    exact isClassKey_of_precedence? binary
  · cases answer with
    | none => exact .pure
    | some precedence =>
      dsimp only
      split
      · exact .pure
      · exact .descendThen (.bind (Travels.take.restrict fun _ begins => begins rfl) fun _ =>
          .bind (goes.binary precedence) fun _ => .pure)

theorem binaryExpression (level : Nat) : Travels place (binaryExpression g level) :=
  .chained (.bind goes.castExpression fun _ => .repeatFrom fun left => goes.binaryLink level left)

/-! ## Conditional, assignment and comma expressions -/

theorem conditionalExpression : Travels place (conditionalExpression g) := by
  refine .bind (goes.binaryExpression lowest) fun condition =>
    .optional rfl (fun question => ?_) .pure
  exact .bind goes.expression fun _ => .bind (.expect rfl) fun _ =>
    .bind (.nested goes.assignment) fun _ => .pure

theorem throwExpression (keyword : Tree.Plain) : Travels place (throwExpression g keyword) := by
  refine .asks fun more => ?_
  split
  · exact .bind (.nested goes.assignment.ofAnywhere) fun _ => .pure
  · exact .bind .pure fun _ => .pure

theorem assignmentExpression : Travels place (assignmentExpression g) := by
  refine .optional rfl (fun keyword => goes.throwExpression keyword) ?_
  refine .bind goes.conditionalExpression fun left =>
    .asksForToken (fun _ => noClassKey_of_atAssignment) ?_ .pure
  exact .bind .take fun _ => .bind (.nested goes.assignment) fun _ => .pure

theorem commaLink (left : Tree.Plain) : Travels place (commaLink g left) := by
  refine .sees ?_ .pure
  exact .descendThen (.bind (.takeSeen rfl) fun _ => .bind goes.assignmentExpression fun _ => .pure)

theorem commaExpression : Travels place (commaExpression g) :=
  .chained (.bind goes.assignmentExpression fun _ => .repeatFrom fun left => goes.commaLink left)

/-! ## Declarators -/

omit goes in
theorem pointers (base : Encoding) : Travels place (pointers base) := by
  refine .repeatFrom fun result => .kind fun found => ?_
  split
  · exact .bind (.takeSeen rfl) fun _ =>
      .bind (.takeRun isClassKey_of_isCvQualifier) fun _ => .pure
  · exact .bind (.takeSeen rfl) fun _ => .pure
  · exact .pure

theorem declaredName (form : DeclaratorForm) : Travels place (declaredName g form) := by
  refine .kind fun found => ?_
  split
  · exact .bind (goes.name false) fun _ => .pure
  · split
    · exact .fail
    · exact .pure

theorem parameterItems : Travels place (parameterItems g) := by
  refine .repeatFrom fun items => .optional rfl (fun _ => .pure) ?_
  refine .bind goes.parameter fun parameter => .optional rfl (fun _ => .pure) ?_
  exact .optional rfl (fun _ => .pure) .pure

theorem parameterClause : Travels place (parameterClause g) :=
  .bind (.expect rfl) fun _ => .seesBind .pure goes.parameterItems fun _ =>
    .bind (.expect rfl) fun _ => .pure

theorem thrownTypes : Travels place (thrownTypes g) := by
  refine .repeatFrom fun types => .sees .pure (.bind goes.typeId fun type => ?_)
  exact .optional rfl (fun _ => .pure) .pure

theorem exceptionSpecification : Travels place (exceptionSpecification g) := by
  refine .optional rfl (fun keyword => ?_) .pure
  exact .bind (.expect rfl) fun _ => .bind goes.thrownTypes fun _ =>
    .bind (.expect rfl) fun _ => .pure

theorem functionSuffix : Travels place (functionSuffix g) :=
  .bind goes.parameterClause fun _ => .bind (.takeRun isClassKey_of_isCvQualifier) fun _ =>
    .bind goes.exceptionSpecification fun _ => .pure

theorem arraySuffix : Travels noClassKey (arraySuffix g) :=
  .bind .take fun _ => .seesBind .pure goes.expression fun _ => .bind (.expect rfl) fun _ => .pure

theorem initializerArguments : Travels noClassKey (initializerArguments g) :=
  .bind .take fun _ => .bind goes.arguments fun _ => .bind (.expect rfl) fun _ => .pure

theorem suffixes (form : DeclaratorForm) : Travels place (suffixes g form) := by
  refine .repeatFrom fun behind => .kind fun found => ?_
  split
  · refine .asks fun parameters => ?_
    split
    · exact .bind (goes.initializerArguments.ofSeen rfl) fun _ => .pure
    · exact .bind goes.functionSuffix fun _ => .pure
  · exact .bind (goes.arraySuffix.ofSeen rfl) fun _ => .pure
  · exact .pure

theorem initializerItems : Travels place (initializerItems g) := by
  refine .repeatFrom fun items => .sees .pure ?_
  refine .seesBind (.nested (goes.initializers.restrict fun _ begins => begins.2))
    goes.assignment fun item => ?_
  exact .optional rfl (fun _ => .pure) .pure

theorem initializerList : Travels (inFrontOf .openBrace) (initializerList g) :=
  .bind (.takeOf rfl) fun _ => .bind goes.initializerItems fun _ =>
    .bind (.expect rfl) fun _ => .pure

theorem bitField (form : DeclaratorForm) (isFunction : Bool) :
    Travels place (bitField g form isFunction) := by
  refine .sees ?_ ?_
  · split
    · exact .bind (.takeSeen rfl) fun _ => .bind goes.conditionalExpression fun _ => .pure
    · exact .pure
  · simp only [Bool.and_false]
    exact .pure

theorem initializer (form : DeclaratorForm) : Travels place (initializer g form) := by
  unfold Grammar.initializer
  split
  · exact .pure
  · refine .optional rfl (fun equals => ?_) .pure
    exact .seesBind (goes.initializers.restrict fun _ begins => begins.2) goes.assignment
      fun _ => .pure

theorem declarator (base : Encoding) (form : DeclaratorForm) :
    Travels place (declarator g base form) := by
  refine .bind (pointers base) fun front => .bind (goes.declaredName form) fun named => ?_
  refine .bind (goes.suffixes form) fun behind => ?_
  dsimp only
  cases behind.initialized with
  | true => exact .bind .pure fun _ => .bind .pure fun _ => .pure
  | false =>
    exact .bind (goes.bitField form _) fun _ => .bind (goes.initializer form) fun _ => .pure

end

end Journeys
end Grammar
end CppNames
