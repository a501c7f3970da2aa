import CppNames.Grammar.Expression
import CppNames.Proofs.Grammar.Name

namespace CppNames
namespace Grammar

/-!
# What expressions read

An expression is a list of operands and the tokens between them.  A chain of operators grows to
the left; what a turn of its loop adds stands behind what was read before.  The callee of a call
is never absent, since a primary expression is not.

The productions are gone through for every property that these lists inherit.  One such property
is that a tree needs no scope and spells every token read for it.
-/

/-! ## Properties that lists inherit

Most productions answer a list of what their parts answer.  A property of trees that such lists
inherit from their elements therefore holds of all that expressions and statements answer, as
soon as it holds of the names, types and declarations in them.  It is joined by a property of trees
that are there, since a list may ask of an element that it is not absent. -/

/-- Lists that are admitted inherit a property from their elements. -/
structure Inherited (admits : Construct → List Tree.Plain → Prop)
    (part whole : Tree.Plain → List Token → Prop) : Prop where
  nil : part .nil []
  leaf : ∀ {test : Token.Kind → Prop} {tree : Tree.Plain} {read : List Token},
    IsLeaf test tree read → whole tree read
  element : ∀ {tree : Tree.Plain} {read : List Token}, whole tree read → part tree read
  there : ∀ {tree : Tree.Plain} {read : List Token}, whole tree read → tree.isNil = false
  seq : ∀ {trees : List Tree.Plain} {read : List Token},
    Each part trees read → part (Tree.seq trees) read
  list : ∀ {construct : Construct} {trees : List Tree.Plain} {read : List Token},
    admits construct trees → Each part trees read → whole (Tree.list construct trees) read

theorem Inherited.token {admits : Construct → List Tree.Plain → Prop}
    {part whole : Tree.Plain → List Token → Prop} (inherited : Inherited admits part whole)
    {test : Token.Kind → Prop} {tree : Tree.Plain} {read : List Token}
    (leaf : IsLeaf test tree read) : part tree read :=
  inherited.element (inherited.leaf leaf)

/-- Nothing is read behind an answer. -/
theorem append_nil_of {α : Type} {property : α → List Token → Prop} {value : α}
    {read : List Token} (holds : property value read) : property value (read ++ []) := by
  rw [List.append_nil]
  exact holds

/-! ## Lists of expressions -/

variable {g : Productions} {place : Where}

/-- The lists that spell expressions.  The callee of a call is there. -/
def ExpressionList (construct : Construct) (trees : List Tree.Plain) : Prop :=
  construct.isTransparent = true ∧ construct ≠ .declarator ∧
    (construct = .funcallExpr → (trees.headD .nil).isNil = false)

/-- What is known of the productions that expressions recur to.  The type of a cast may be asked
for more than its tree. -/
structure Expressions (part whole : Tree.Plain → List Token → Prop)
    (typed : Encoded → List Token → Prop) (g : Productions) : Prop where
  inherited : Inherited ExpressionList part whole
  typeId : Reads anywhere g.typeId fun type => part type.tree
  assignment : Reads anywhere g.assignment part
  expression : Reads anywhere g.expression part
  cast : Reads anywhere g.cast part
  binary : ∀ level, Reads anywhere (g.binary level) part
  initializers : Reads (inFrontOf .openBrace) g.initializers part
  named : ∀ inType, Reads anywhere (name g inType) fun named read =>
    whole named.tree read ∧ typed named read
  words : ∀ {words : List Tree.Plain} {read : List Token} (spelled : BuiltinWords),
    Each (IsLeaf fun kind => kind.isBuiltinType = true) words read →
    typed ⟨grouped words, spelled.encoding⟩ read
  call : ∀ {type : Encoded} {trees : List Tree.Plain} {read readBehind : List Token},
    typed type read → Each part trees readBehind →
    whole (Tree.encodedList .fstyleCastExpr none (some type.encoding) (type.tree :: trees))
      (read ++ readBehind)

theorem precedence?_endOfFile (inTemplateArguments : Bool) :
    precedence? .endOfFile inTemplateArguments = none := rfl

theorem notAtEnd_of_atParenthesizedType {state : State}
    (holds : atParenthesizedType state = true) : notAtEnd state.tokens :=
  notAtEnd_of_kindOf (eq_of_beq (Bool.and_eq_true_iff.mp holds).1) (by decide)

theorem notAtEnd_of_atAssignment {state : State} (holds : atAssignment state = true) :
    notAtEnd state.tokens := by
  intro same
  unfold atAssignment at holds
  rw [same] at holds
  cases holds

/-- A turn of a loop that extends an operand. -/
abbrev Extends (whole : Tree.Plain → List Token → Prop) (before : List Token) :
    Turn Tree.Plain → List Token → Prop :=
  Reads.Turns whole whole before

/-- A loop that extends a first operand. -/
theorem chain_reads {whole : Tree.Plain → List Token → Prop} {first : Production Tree.Plain}
    {link : Tree.Plain → Production (Turn Tree.Plain)}
    (begins : Reads place first whole)
    (extend : ∀ left before, whole left before →
      Reads anywhere (link left) (Extends whole before)) :
    Reads place (chained do repeatFrom (← first) link) whole := by
  refine .chained (.bind begins fun start before operand => ?_)
  exact .repeatFrom whole whole operand fun left read holds => extend left read holds

namespace Expressions

variable {part whole : Tree.Plain → List Token → Prop} {typed : Encoded → List Token → Prop}
  {test : Token.Kind → Prop} {construct : Construct} {tree left : Tree.Plain}
  {trees : List Tree.Plain} {read before : List Token}

section

variable (holds : Expressions part whole typed g)
include holds

theorem token (leaf : IsLeaf test tree read) : part tree read := holds.inherited.token leaf

theorem element (operand : whole tree read) : part tree read := holds.inherited.element operand

/-- A list that spells an expression other than a call. -/
theorem spells (each : Each part trees read) (transparent : construct.isTransparent = true)
    (other : construct ≠ .declarator ∧ construct ≠ .funcallExpr) :
    whole (Tree.list construct trees) read :=
  holds.inherited.list ⟨transparent, other.1, fun same => absurd same other.2⟩ each

/-! ## Arguments and casts -/

theorem arguments_reads : Reads anywhere (arguments g) part := by
  refine .sees (.pure holds.inherited.nil) ?_
  have item : Reads anywhere (do return [← g.assignment]) (Each part) :=
    .bind holds.assignment fun tree read simple => .pure (.cons simple .nil)
  refine .bind (.inParentheses (.commaSeparated item fun tree read leaf => holds.token leaf))
    fun items read each => .pure ?_
  exact append_nil_of (holds.inherited.seq each)

theorem callCast_reads {type : Encoded} (known : typed type before) :
    Reads anywhere (callCast g type.tree type.encoding) fun tree read =>
      whole tree (before ++ read) := by
  refine .bind (.expect (by decide)) fun opening readOpening leafOpening => ?_
  refine .bind holds.arguments_reads fun operands readOperands operandsPart => ?_
  refine .bind (.expect (by decide)) fun closing readClosing leafClosing => .pure ?_
  exact holds.call known
    (.cons (holds.token leafOpening) (.cons operandsPart (.cons (holds.token leafClosing) .nil)))

/-! ## Primary expressions -/

theorem parenthesized_reads : Reads notAtEnd (parenthesized g) whole := by
  refine .bind .takeAny fun opening readOpening leafOpening => ?_
  refine .bind (.inParentheses holds.expression) fun inner readInner simple => ?_
  refine .bind (.expect (by decide)) fun closing readClosing leafClosing => .pure ?_
  exact holds.spells
    (.cons (holds.token leafOpening) (.cons simple (.cons (holds.token leafClosing) .nil)))
    (by decide) (by simp)

theorem typeidOperand_reads : Reads notAtEnd (typeidOperand g) whole := by
  refine .bind .takeAny fun keyword readKeyword leafKeyword => ?_
  refine .bind (.expect (by decide)) fun opening readOpening leafOpening => ?_
  refine .asks fun isType => .bindIf (.map holds.typeId) holds.expression
    fun operand readOperand simple => ?_
  refine .bind (.expect (by decide)) fun closing readClosing leafClosing => .pure ?_
  exact holds.spells (.cons (holds.token leafKeyword) (.cons (holds.token leafOpening)
    (.cons simple (.cons (holds.token leafClosing) .nil)))) (by decide) (by simp)

theorem builtinCast_reads : Reads anywhere (builtinCast g) whole := by
  refine .bind (.takeRun rfl) fun words readWords leaves => ?_
  refine .counting fun spelled => ?_
  exact holds.callCast_reads (holds.words spelled leaves)

theorem nameOrCast_reads : Reads anywhere (nameOrCast g) whole := by
  refine .bind (holds.named false) fun named read both => ?_
  refine .reading fun last => .reading fun plain => ?_
  have alone : Reads anywhere (pure named.tree) fun tree readBehind =>
      whole tree (read ++ readBehind) := .pure (append_nil_of both.1)
  refine .asks fun isType => .sees ?_ ?_
  · split
    · exact (holds.callCast_reads both.2).ofAnywhere
    · exact alone.ofAnywhere
  · simp only [Bool.and_false]
    exact alone

theorem primary_reads : Reads anywhere (primary g) whole := by
  refine .kind fun found => ?_
  split
  · next literal =>
    refine (Reads.takeSeen fun same => ?_).weaken fun tree read leaf => holds.inherited.leaf leaf
    rw [same] at literal
    cases literal
  · have taken : ∀ kind, kind ≠ .endOfFile →
        Reads (fun tokens => anywhere tokens ∧ kindOf tokens = kind) Grammar.take whole :=
      fun kind more => (Reads.takeSeen more).weaken fun tree read leaf => holds.inherited.leaf leaf
    split
    · exact taken _ (by decide)
    · exact taken _ (by decide)
    · exact taken _ (by decide)
    · exact holds.parenthesized_reads.ofSeen (by decide)
    · exact holds.typeidOperand_reads.ofSeen (by decide)
    · exact holds.nameOrCast_reads.ofAnywhere
    · exact holds.nameOrCast_reads.ofAnywhere
    · exact holds.nameOrCast_reads.ofAnywhere
    · exact holds.nameOrCast_reads.ofAnywhere
    · split
      · exact holds.builtinCast_reads.ofAnywhere
      · exact .fail

/-! ## Postfix, unary and binary expressions -/

theorem memberLink_reads (operand : whole left before)
    (transparent : construct.isTransparent = true)
    (other : construct ≠ .declarator ∧ construct ≠ .funcallExpr) :
    Reads notAtEnd (do
      descend
      let operator ← take
      let member ← name g false
      return .again (Tree.list construct [left, operator, member.tree]))
      (Extends whole before) := by
  refine .descendThen (.bind .takeAny fun operator readOperator leaf => ?_)
  refine .bind (holds.named false) fun member read both => .pure ?_
  exact holds.spells (.cons (holds.element operand) (.cons (holds.token leaf)
    (.cons (holds.element both.1) .nil))) transparent other

theorem postfixLink_reads (operand : whole left before) :
    Reads anywhere (postfixLink g left) (Extends whole before) := by
  have operator : Reads notAtEnd (do
      descend
      let operator ← take
      return .again (Tree.list .postfixExpr [left, operator])) (Extends whole before) := by
    refine .descendThen (.bind .takeAny fun operator readOperator leaf => .pure ?_)
    exact holds.spells (.cons (holds.element operand) (.cons (holds.token leaf) .nil))
      (by decide) (by simp)
  refine .kind fun found => ?_
  split
  · refine .descendThen (.bind (.takeSeen (by decide)) fun opening readOpening leafOpening => ?_)
    refine .bind holds.expression fun index readIndex simple => ?_
    refine .bind (.expect (by decide)) fun closing readClosing leafClosing => .pure ?_
    exact holds.spells (.cons (holds.element operand) (.cons (holds.token leafOpening)
      (.cons simple (.cons (holds.token leafClosing) .nil)))) (by decide) (by simp)
  · refine .descendThen (.bind (.takeSeen (by decide)) fun opening readOpening leafOpening => ?_)
    refine .bind holds.arguments_reads fun operands readOperands simple => ?_
    refine .bind (.expect (by decide)) fun closing readClosing leafClosing => .pure ?_
    exact holds.inherited.list ⟨rfl, by decide, fun _ => holds.inherited.there operand⟩
      (.cons (holds.element operand) (.cons (holds.token leafOpening)
        (.cons simple (.cons (holds.token leafClosing) .nil))))
  · exact (holds.memberLink_reads operand (by decide) (by simp)).ofSeen (by decide)
  · exact (holds.memberLink_reads operand (by decide) (by simp)).ofSeen (by decide)
  · exact operator.ofSeen (by decide)
  · exact operator.ofSeen (by decide)
  · exact .pure (append_nil_of operand)

theorem postfixExpression_reads :
    Reads anywhere (postfixExpression g) whole :=
  chain_reads holds.primary_reads fun _ _ operand => holds.postfixLink_reads operand

theorem prefixCast_reads : Reads notAtEnd (prefixCast g) whole := by
  refine .bind .takeAny fun opening readOpening leafOpening => ?_
  refine .bind holds.typeId fun type readType typeSimple => ?_
  refine .bind (.expect (by decide)) fun closing readClosing leafClosing => ?_
  refine .bind holds.cast fun operand readOperand simple => .pure ?_
  exact holds.spells (.cons (holds.token leafOpening) (.cons typeSimple
    (.cons (holds.token leafClosing) (.cons simple .nil)))) (by decide) (by simp)

theorem unary_reads : Reads notAtEnd (unary g) whole := by
  refine .bind .takeAny fun operator readOperator leaf => ?_
  refine .bind holds.cast fun operand readOperand simple => .pure ?_
  exact holds.spells (.cons (holds.token leaf) (.cons simple .nil)) (by decide) (by simp)

theorem sizeofOperand_reads : Reads notAtEnd (sizeofOperand g) whole := by
  refine .bind .takeAny fun keyword readKeyword leafKeyword => ?_
  refine .asksForToken (fun state => notAtEnd_of_atParenthesizedType) ?_ ?_
  · refine .bind .takeAny fun opening readOpening leafOpening => ?_
    refine .bind holds.typeId fun type readType typeSimple => ?_
    refine .bind (.expect (by decide)) fun closing readClosing leafClosing => .pure ?_
    exact holds.spells (.cons (holds.token leafKeyword) (.cons (holds.token leafOpening)
      (.cons typeSimple (.cons (holds.token leafClosing) .nil)))) (by decide) (by simp)
  · refine .bind holds.cast fun operand readOperand simple => .pure ?_
    exact holds.spells (.cons (holds.token leafKeyword) (.cons simple .nil)) (by decide) (by simp)

theorem newObject_reads : Reads notAtEnd (newObject g) whole := by
  refine .bind .takeAny fun keyword readKeyword leafKeyword => ?_
  refine .bind holds.typeId fun type readType typeSimple => ?_
  refine .optional (by decide) (fun opening readOpening leafOpening => ?_) (.pure ?_)
  · refine .bind holds.arguments_reads fun operands readOperands simple => ?_
    refine .bind (.expect (by decide)) fun closing readClosing leafClosing => .pure ?_
    exact holds.spells (.cons (holds.token leafKeyword) (.cons typeSimple
      (.cons (holds.token leafOpening) (.cons simple (.cons (holds.token leafClosing) .nil)))))
      (by decide) (by simp)
  · exact holds.spells (.cons (holds.token leafKeyword) (.cons typeSimple .nil))
      (by decide) (by simp)

theorem deleteObject_reads : Reads notAtEnd (deleteObject g) whole := by
  refine .bind .takeAny fun keyword readKeyword leafKeyword => ?_
  have single : Reads anywhere (do
      let operand ← g.cast
      return Tree.list .deleteExpr [keyword, operand])
      fun tree read => whole tree (readKeyword ++ read) := by
    refine .bind holds.cast fun operand readOperand simple => .pure ?_
    exact holds.spells (.cons (holds.token leafKeyword) (.cons simple .nil)) (by decide) (by simp)
  refine .sees (.kindBehind fun found => ?_) (.kindBehind fun found => single.ofAnywhere)
  simp only [Bool.true_and]
  split
  · next closes =>
    refine .takeThen (· = .openBracket) (inFrontOf .closeBracket)
      (fun tokens begins => ⟨begins.1.2, notAtEnd_of_kindOf begins.1.2 (by decide), ?_⟩)
      fun opening readOpening leafOpening => ?_
    · exact begins.2.trans (eq_of_beq closes)
    · refine .bind (.takeOf (by decide)) fun closing readClosing leafClosing => ?_
      refine .bind holds.cast fun operand readOperand simple => .pure ?_
      exact holds.spells (.cons (holds.token leafKeyword) (.cons (holds.token leafOpening)
        (.cons (holds.token leafClosing) (.cons simple .nil)))) (by decide) (by simp)
  · exact single.ofAnywhere

theorem castExpression_reads : Reads anywhere (castExpression g) whole := by
  refine .nested (.kind fun found => ?_)
  split
  · next operator =>
    refine holds.unary_reads.ofSeen fun same => ?_
    rw [same] at operator
    cases operator
  · split
    · refine .asks fun isType => ?_
      split
      · exact holds.prefixCast_reads.ofSeen (by decide)
      · exact holds.postfixExpression_reads.ofAnywhere
    · exact holds.sizeofOperand_reads.ofSeen (by decide)
    · exact holds.newObject_reads.ofSeen (by decide)
    · exact holds.deleteObject_reads.ofSeen (by decide)
    · exact holds.postfixExpression_reads.ofAnywhere

theorem binaryLink_reads (level : Nat) (operand : whole left before) :
    Reads anywhere (binaryLink g level left) (Extends whole before) := by
  have ended : Reads anywhere (pure (Turn.done left)) (Extends whole before) :=
    .pure (append_nil_of operand)
  refine .askTelling (fun answer tokens => answer.isSome = true → notAtEnd tokens)
    (fun _ => rfl) (fun state _ more same => ?_) fun answer => ?_
  · rw [same, precedence?_endOfFile] at more
    cases more
  · cases answer with
    | none => exact ended.ofAnywhere
    | some precedence =>
      dsimp only
      split
      · exact ended.ofAnywhere
      · refine .descendThen (.bind (Reads.takeAny.restrict fun _ begins => begins rfl)
          fun operator readOperator leaf => ?_)
        refine .bind (holds.binary precedence) fun right readRight simple => .pure ?_
        exact holds.spells (.cons (holds.element operand) (.cons (holds.token leaf)
          (.cons simple .nil))) (by decide) (by simp)

theorem binaryExpression_reads (level : Nat) :
    Reads anywhere (binaryExpression g level) whole :=
  chain_reads holds.castExpression_reads fun _ _ operand => holds.binaryLink_reads level operand

/-! ## Conditional, assignment and comma expressions -/

theorem conditionalExpression_reads :
    Reads anywhere (conditionalExpression g) whole := by
  refine .bind (holds.binaryExpression_reads lowest) fun condition readCondition operand => ?_
  refine .optional (by decide) (fun question readQuestion leafQuestion => ?_)
    (.pure (append_nil_of operand))
  refine .bind holds.expression fun chosen readChosen chosenSimple => ?_
  refine .bind (.expect (by decide)) fun colon readColon leafColon => ?_
  refine .bind (.nested holds.assignment) fun otherwise readOtherwise simple => .pure ?_
  exact holds.spells (.cons (holds.element operand) (.cons (holds.token leafQuestion)
    (.cons chosenSimple (.cons (holds.token leafColon) (.cons simple .nil))))) (by decide) (by simp)

theorem throwExpression_reads {keyword : Tree.Plain} {before : List Token}
    (leaf : part keyword before) :
    Reads anywhere (throwExpression g keyword) fun tree read => whole tree (before ++ read) := by
  have made : ∀ operand read, part operand read →
      Reads anywhere (pure (Tree.list .throwExpr [keyword, operand]))
        fun tree readBehind => whole tree (before ++ (read ++ readBehind)) := by
    intro operand read simple
    exact .pure (holds.spells (.cons leaf (.cons simple .nil)) (by decide) (by simp))
  refine .asks fun more => ?_
  split
  · exact .bind (.nested holds.assignment) made
  · exact .bind (.pure holds.inherited.nil) made

theorem assignmentExpression_reads :
    Reads anywhere (assignmentExpression g) whole := by
  refine .optional (by decide)
    (fun keyword readKeyword leaf => holds.throwExpression_reads (holds.token leaf)) ?_
  refine .bind holds.conditionalExpression_reads fun left readLeft operand => ?_
  refine .asksForToken (fun state => notAtEnd_of_atAssignment) ?_
    (.pure (append_nil_of operand))
  refine .bind .takeAny fun operator readOperator leaf => ?_
  refine .bind (.nested holds.assignment) fun right readRight simple => .pure ?_
  exact holds.spells (.cons (holds.element operand) (.cons (holds.token leaf) (.cons simple .nil)))
    (by decide) (by simp)

theorem commaLink_reads (operand : whole left before) :
    Reads anywhere (commaLink g left) (Extends whole before) := by
  refine .sees ?_ (.pure (append_nil_of operand))
  refine .descendThen (.bind (.takeSeen (by decide)) fun comma readComma leaf => ?_)
  refine .bind holds.assignmentExpression_reads fun right readRight rightOperand => .pure ?_
  exact holds.spells (.cons (holds.element operand) (.cons (holds.token leaf)
    (.cons (holds.element rightOperand) .nil))) (by decide) (by simp)

theorem commaExpression_reads : Reads anywhere (commaExpression g) whole :=
  chain_reads holds.assignmentExpression_reads fun _ _ operand => holds.commaLink_reads operand

end

end Expressions

/-! ## Expressions need no scope -/

theorem inherited_simple : Inherited ExpressionList Simple Operand where
  nil := simple_nil
  leaf := IsLeaf.operand
  element := Operand.toSimple
  there := Operand.there
  seq := Each.simple_seq
  list admitted each := each.operand_encodedList admitted.1 admitted.2.2

theorem Parses.expressions (parses : Parses g) :
    Expressions Simple Operand (fun type => Simple type.tree) g where
  inherited := inherited_simple
  typeId := parses.typeId
  assignment := parses.assignment
  expression := parses.expression
  cast := parses.cast
  binary := parses.binary
  initializers := parses.initializers
  named inType := (name_reads parses inType).weaken fun _ _ name => ⟨name.toOperand, name.toSimple⟩
  words _ leaves := Each.simple_grouped (leaves.imp fun _ _ leaf => leaf.simple)
  call simple each := (Each.cons simple each).operand_encodedList (by decide) (by simp)

end Grammar
end CppNames
