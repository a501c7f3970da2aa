import CppNames.Grammar.Expression
import CppNames.Proofs.Nesting.Building

namespace CppNames
namespace Grammar

/-!
# How names and expressions rise

A name or an expression rises by a few lists more than the operand it is built around, and a
chain of operators by one for each of its links, of which there are no more than the room, unless
links count for themselves.  What stands behind a link is a level deeper and does not rise.

The operands of a cast or of a unary operator are nested, and so are both parts of a conditional
expression behind its `?` but the first.  That one is as deep as the whole, which is why the list
of a conditional expression has to count for itself.
-/

/-- How far the trees of the recursive productions rise. -/
structure Bounded (tally : Tally) (limit : Nat) (g : Productions) : Prop where
  typeId (room : Nat) : Builds limit room g.typeId fun type => type.tree.Rises tally limit room 0
  assignment (room : Nat) :
    Builds limit room g.assignment (Tree.Rises tally limit room (tally.links room + 1))
  expression (room : Nat) :
    Builds limit room g.expression (Tree.Rises tally limit room (2 * tally.links room + 1))
  cast (room : Nat) : Builds limit room g.cast (Tree.Rises tally limit room 0)
  binary (room level : Nat) :
    Builds limit room (g.binary level) (Tree.Rises tally limit room (tally.links room))
  initializers (room : Nat) :
    Builds limit room g.initializers (Tree.Rises tally limit room (tally.links room + 3))
  parameter (room : Nat) :
    Builds limit room g.parameter fun parameter => parameter.tree.Rises tally limit room 0
  declaration (room : Nat) (place : Place) :
    Builds limit room (g.declaration place) (Tree.Rises tally limit room 0)
  statement (room : Nat) : Builds limit room g.statement (Tree.Rises tally limit room 0)

theorem bounded_exhausted (limit : Nat) : Bounded tally limit .exhausted := by
  constructor
  all_goals
    intros
    exact .throw

open CppNames.Tree (Rises AllRise IsToken allRise_nil rises_nil)

variable {g : Productions} {tally : Tally} {limit room : Nat}

/-! ## Names -/

theorem templateArgument_builds (bounded : Bounded tally limit g) :
    Builds limit room (templateArgument g) fun argument =>
      argument.tree.Rises tally limit room (tally.links room + 1) := by
  refine .asks fun isType => ?_
  split
  · exact (bounded.typeId room).weaken fun type rises => rises.mono (Nat.zero_le _)
  · exact .bind (bounded.assignment room) fun tree rises => .pure rises

theorem templateArgumentList_builds (bounded : Bounded tally limit g) :
    Builds limit room (templateArgumentList g) fun parts =>
      AllRise tally limit room (tally.links room + 1) parts.elements := by
  refine .behind .splitShift fun _ => .sees (.pure allRise_nil) ?_
  refine .repeatFrom
    (fun parts : NameParts => AllRise tally limit room (tally.links room + 1) parts.elements)
    allRise_nil fun parts all => ?_
  refine .bind (templateArgument_builds bounded) fun argument rises => ?_
  have more := all.append rises.single
  exact .optional (fun comma token => .pure (more.append token.rises.single)) (.pure more)

theorem templateArguments_builds (bounded : Bounded tally limit g) :
    Builds limit room (templateArguments g) fun parts =>
      AllRise tally limit room (tally.links room + 2) parts.elements := by
  refine .bind .take fun opening token => ?_
  refine .bind (.inTemplate (templateArgumentList_builds bounded)) fun arguments all => ?_
  refine .bind .expect fun closing tokenClosing => .pure ?_
  exact .cons token.rises (.cons all.rises_seq tokenClosing.rises.single)

theorem identifierComponent_builds (bounded : Bounded tally limit g) (inType : Bool) :
    Builds limit room (identifierComponent g inType) fun component =>
      AllRise tally limit room (tally.links room + 2) component.elements := by
  refine .bind .take fun identifier token => .asks fun isTemplate => ?_
  have alone : Builds limit room
      (pure (⟨[identifier], .simpleName identifier.text⟩ : NameComponent)) fun component =>
        AllRise tally limit room (tally.links room + 2) component.elements :=
    .pure token.rises.single
  refine .sees ?_ ?_
  · split
    · exact .bind (templateArguments_builds bounded) fun arguments all =>
        .pure (.cons token.rises all)
    · exact alone
  · exact alone

theorem destructorComponent_builds :
    Builds limit room destructorComponent fun component =>
      AllRise tally limit room (tally.links room + 2) component.elements := by
  refine .bind .take fun tilde token => .bind .expect fun identifier tokenBehind => .pure ?_
  exact .cons token.rises tokenBehind.rises.single

theorem bracketOperator_builds {closing : Token.Kind} {shown : String} :
    Builds limit room (bracketOperator closing shown) fun result =>
      AllRise tally limit room (tally.links room + 2) result.1 := by
  refine .bind .take fun first token => .bind .expect fun second tokenBehind => .pure ?_
  exact .cons token.rises tokenBehind.rises.single

theorem allocationOperator_builds :
    Builds limit room allocationOperator fun result =>
      AllRise tally limit room (tally.links room + 2) result.1 := by
  refine .bind .take fun keyword token => .sees (.kindBehind fun found => ?_) ?_
  · split
    · refine .bind .take fun opening tokenOpening => .bind .take fun closing tokenClosing =>
        .pure ?_
      exact .cons token.rises (.cons tokenOpening.rises tokenClosing.rises.single)
    · exact .pure token.rises.single
  · exact .kindBehind fun found => .pure token.rises.single

theorem operatorSuffix_builds (bounded : Bounded tally limit g) :
    Builds limit room (operatorSuffix g) fun result =>
      AllRise tally limit room (tally.links room + 2) result.1 := by
  refine .kind fun found => ?_
  split
  · exact bracketOperator_builds
  · exact bracketOperator_builds
  · exact allocationOperator_builds
  · exact allocationOperator_builds
  · split
    · exact .bind .take fun operator token => .pure token.rises.single
    · refine .bind (bounded.typeId room) fun type rises => .reading fun shown => .pure ?_
      exact (rises.mono (Nat.zero_le _)).single

theorem nameComponent_builds (bounded : Bounded tally limit g) (inType : Bool) :
    Builds limit room (nameComponent g inType) fun component =>
      AllRise tally limit room (tally.links room + 2) component.elements := by
  refine .kind fun found => ?_
  split
  · exact identifierComponent_builds bounded inType
  · exact destructorComponent_builds
  · refine .bind .take fun keyword token => ?_
    exact .bind (operatorSuffix_builds bounded) fun suffix all => .pure (.cons token.rises all)
  · exact .fail

theorem nameComponents_builds (bounded : Bounded tally limit g) (inType : Bool) {start : NameParts}
    (begins : AllRise tally limit room (tally.links room + 2) start.elements) :
    Builds limit room (nameComponents g inType start) fun parts =>
      AllRise tally limit room (tally.links room + 2) parts.elements := by
  refine .repeatFrom
    (fun parts : NameParts => AllRise tally limit room (tally.links room + 2) parts.elements) begins
    fun parts all => ?_
  refine .bind (nameComponent_builds bounded inType) fun component allBehind => ?_
  have more := all.append allBehind
  refine .sees (.kindBehind fun found => ?_) (.kindBehind fun found => .pure more)
  split
  · refine .bind .take fun colons token => ?_
    have withColons := more.append token.rises.single
    refine .bind .take? fun keyword tokens => .pure (withColons.append ?_)
    intro tree member
    exact (tokens tree (Option.mem_toList.mp member)).rises
  · exact .pure more

theorem rises_nameTree {elements : List Tree.Plain} {height : Nat} (encoding : Encoding)
    (all : AllRise tally limit room height elements) :
    (nameTree elements encoding).Rises tally limit room (height + 1) := by
  have list := all.rises_encodedList .name (some encoding) none
  unfold nameTree
  split
  · next single =>
    split
    · exact (all single (List.mem_singleton_self _)).mono (Nat.le_succ _)
    · exact list
  · exact list

theorem name_builds (bounded : Bounded tally limit g) (inType : Bool) :
    Builds limit room (name g inType) fun named =>
      named.tree.Rises tally limit room (tally.links room + 3) := by
  refine .optional (fun colons token => ?_) ?_
  · exact .bind (nameComponents_builds bounded inType token.rises.single) fun parts all =>
      .pure (rises_nameTree _ all)
  · exact .bind (nameComponents_builds bounded inType allRise_nil) fun parts all =>
      .pure (rises_nameTree _ all)

/-! ## Arguments and casts -/

theorem arguments_builds (bounded : Bounded tally limit g) :
    Builds limit room (arguments g) (Rises tally limit room (tally.links room + 2)) := by
  refine .sees (.pure rises_nil) ?_
  have item : Builds limit room (do return [← g.assignment])
      (AllRise tally limit room (tally.links room + 1)) :=
    .bind (bounded.assignment room) fun tree rises => .pure rises.single
  exact .bind (.inParentheses (.commaSeparated item)) fun items all => .pure all.rises_seq

theorem rises_grouped {trees : List Tree.Plain} {height : Nat}
    (all : AllRise tally limit room height trees) :
    (grouped trees).Rises tally limit room (height + 1) := by
  unfold grouped
  split
  · next single => exact (all single (List.mem_singleton_self _)).mono (Nat.le_succ _)
  · exact all.rises_seq

theorem callCast_builds (bounded : Bounded tally limit g) {type : Tree.Plain} {encoding : Encoding}
    (rises : type.Rises tally limit room (tally.links room + 3)) :
    Builds limit room (callCast g type encoding)
      (Rises tally limit room (tally.links room + 4)) := by
  refine .bind .expect fun opening token => ?_
  refine .bind (arguments_builds bounded) fun operands risesOperands => ?_
  refine .bind .expect fun closing tokenClosing => .pure ?_
  have parts : AllRise tally limit room (tally.links room + 3) [type, opening, operands, closing] :=
    .cons rises (.cons token.rises (.cons (risesOperands.mono (by omega))
      tokenClosing.rises.single))
  exact parts.rises_encodedList _ _ _

/-! ## Primary expressions -/

theorem parenthesized_builds (bounded : Bounded tally limit g) :
    Builds limit room (parenthesized g) (Rises tally limit room (2 * tally.links room + 2)) := by
  refine .bind .take fun opening token => ?_
  refine .bind (.inParentheses (bounded.expression room)) fun inner rises => ?_
  refine .bind .expect fun closing tokenClosing => .pure ?_
  exact AllRise.rises_list (.cons token.rises (.cons rises tokenClosing.rises.single)) _

theorem typeidOperand_builds (bounded : Bounded tally limit g) :
    Builds limit room (typeidOperand g) (Rises tally limit room (2 * tally.links room + 2)) := by
  refine .bind .take fun keyword token => .bind .expect fun opening tokenOpening => ?_
  have type : Builds limit room ((·.tree) <$> g.typeId)
      (Rises tally limit room (2 * tally.links room + 1)) :=
    .map ((bounded.typeId room).weaken fun type rises => rises.mono (Nat.zero_le _))
  refine .asks fun isType => .bindIf type (bounded.expression room) fun operand rises => ?_
  refine .bind .expect fun closing tokenClosing => .pure ?_
  exact AllRise.rises_list (.cons token.rises (.cons tokenOpening.rises
    (.cons rises tokenClosing.rises.single))) _

theorem builtinCast_builds (bounded : Bounded tally limit g) :
    Builds limit room (builtinCast g) (Rises tally limit room (tally.links room + 4)) := by
  have run : Builds limit room (takeRun Token.Kind.isBuiltinType)
      (AllRise tally limit room 0) := .takeRun
  refine .bind run fun words all => .counting fun spelled => ?_
  exact callCast_builds bounded ((rises_grouped all).mono (by omega))

theorem nameOrCast_builds (bounded : Bounded tally limit g) :
    Builds limit room (nameOrCast g) (Rises tally limit room (tally.links room + 4)) := by
  refine .bind (name_builds bounded false) fun named rises => ?_
  refine .reading fun last => .reading fun plain => .asks fun isType => ?_
  have alone : Builds limit room (pure named.tree)
      (Rises tally limit room (tally.links room + 4)) :=
    .pure (rises.mono (Nat.le_succ _))
  refine .sees ?_ ?_
  · split
    · exact callCast_builds bounded rises
    · exact alone
  · simp only [Bool.and_false]
    exact alone

theorem primary_builds (bounded : Bounded tally limit g) :
    Builds limit room (primary g) (Rises tally limit room (2 * tally.links room + 4)) := by
  have token : Builds limit room take (Rises tally limit room (2 * tally.links room + 4)) :=
    Builds.take.weaken fun tree token => token.rises
  have named : Builds limit room (nameOrCast g)
      (Rises tally limit room (2 * tally.links room + 4)) :=
    (nameOrCast_builds bounded).higher (by omega)
  refine .kind fun found => ?_
  split
  · exact token
  · split
    · exact token
    · exact token
    · exact token
    · exact (parenthesized_builds bounded).higher (by omega)
    · exact (typeidOperand_builds bounded).higher (by omega)
    · exact named
    · exact named
    · exact named
    · exact named
    · split
      · exact (builtinCast_builds bounded).higher (by omega)
      · exact .fail

/-! ## Chains of operators -/

/-- What a chain has built at some level, whose first operand rises by `base` at most: one list
more for each level taken so far, unless links count for themselves. -/
structure Chain (tally : Tally) (limit room base less : Nat) (tree : Tree.Plain) : Prop where
  within : room ≤ limit
  smaller : less ≤ room
  low : base < 3 * tally.links limit + 8
  rises : tree.Rises tally limit room (base + (tally.links room - tally.links less))

namespace Chain

variable {base less height : Nat} {left : Tree.Plain} {others : List Tree.Plain}

/-- Behind a link there is no more room for links than the limit has. -/
theorem links_le (chain : Chain tally limit room base (less + 1) left) :
    tally.links less ≤ tally.links limit :=
  tally.links_mono (Nat.le_of_succ_le (Nat.le_trans chain.smaller chain.within))

/-- One link more.  What stands behind its first operand was read a level deeper. -/
theorem extend (chain : Chain tally limit room base (less + 1) left)
    (all : AllRise tally limit less height others) (le : height ≤ 3 * tally.links limit + 8)
    {construct : Construct} (isLink : construct.isLink = true) :
    Chain tally limit room base less (Tree.list construct (left :: others)) := by
  have smaller := chain.smaller
  have parts : AllRise tally limit room (base + (tally.links room - tally.links (less + 1)))
      (left :: others) := .cons chain.rises (all.outer le smaller)
  refine ⟨chain.within, Nat.le_of_succ_le smaller, chain.low, ?_⟩
  cases tally with
  | uncounted =>
    have more : base + (room - (less + 1)) + 1 ≤ base + (room - less) := by omega
    exact (parts.rises_list construct).mono more
  | withLinks =>
    have counts : Tally.withLinks.counts construct = true := Bool.or_eq_true_iff.mpr (.inr isLink)
    exact (parts.rises_counted counts none none chain.low).mono (Nat.zero_le _)

theorem ends (chain : Chain tally limit room base less left) :
    left.Rises tally limit room (base + tally.links room) :=
  chain.rises.mono (by omega)

end Chain

/-- An operand that rises by `base` at most, extended by links. -/
theorem chain_builds {first : Production Tree.Plain} {base : Nat}
    {link : Tree.Plain → Production (Turn Tree.Plain)}
    (low : room ≤ limit → base < 3 * tally.links limit + 8)
    (begins : Builds limit room first (Rises tally limit room base))
    (links : ∀ less left, Chain tally limit room base less left →
      Climbs limit less (Chain tally limit room base) (link left)) :
    Builds limit room (chained do repeatFrom (← first) link)
      (Rises tally limit room (base + tally.links room)) := by
  refine .ofRoom fun within => ?_
  refine .chained (begins.weaken fun _ rises => ?_) links fun _ _ _ chain => chain.ends
  exact ⟨within, Nat.le_refl _, low within, rises.mono (Nat.le_add_right _ _)⟩

theorem postfixLink_builds (bounded : Bounded tally limit g) {base level : Nat}
    {left : Tree.Plain} (chain : Chain tally limit room base level left) :
    Climbs limit level (Chain tally limit room base) (postfixLink g left) := by
  have member {construct : Construct} (isLink : construct.isLink = true) :
      Climbs limit level (Chain tally limit room base) (do
        descend
        let operator ← take
        let member ← name g false
        return .again (Tree.list construct [left, operator, member.tree])) := by
    refine .link fun less same => .bind .take fun operator token => ?_
    subst same
    refine .bind (name_builds bounded false) fun member rises => .pure ?_
    have le := chain.links_le
    exact chain.extend (.cons token.rises rises.single) (by omega) isLink
  have operator : Climbs limit level (Chain tally limit room base) (do
      descend
      let operator ← take
      return .again (Tree.list .postfixExpr [left, operator])) := by
    refine .link fun less same => .bind .take fun operator token => .pure ?_
    subst same
    exact chain.extend token.rises.single (Nat.zero_le _) rfl
  refine .ask (fun _ => rfl) fun found => ?_
  split
  · refine .link fun less same => .bind .take fun opening token => ?_
    subst same
    refine .bind (bounded.expression less) fun index rises => ?_
    refine .bind .expect fun closing tokenClosing => .pure ?_
    have le := chain.links_le
    exact chain.extend (.cons token.rises (.cons rises tokenClosing.rises.single))
      (by omega) rfl
  · refine .link fun less same => .bind .take fun opening token => ?_
    subst same
    refine .bind (arguments_builds bounded) fun operands rises => ?_
    refine .bind .expect fun closing tokenClosing => .pure ?_
    have le := chain.links_le
    exact chain.extend (.cons token.rises (.cons rises tokenClosing.rises.single))
      (by omega) rfl
  · exact member rfl
  · exact member rfl
  · exact operator
  · exact operator
  · exact .done chain

theorem postfixExpression_builds (bounded : Bounded tally limit g) :
    Builds limit room (postfixExpression g)
      (Rises tally limit room (3 * tally.links room + 4)) := by
  have low (le : room ≤ limit) : 2 * tally.links room + 4 < 3 * tally.links limit + 8 := by
    have links := tally.links_mono le
    omega
  have built := chain_builds low (primary_builds bounded) fun level left chain =>
    postfixLink_builds bounded chain
  exact built.higher (by omega)

/-! ## Unary and binary expressions -/

theorem prefixCast_builds (bounded : Bounded tally limit g) :
    Builds limit room (prefixCast g) (Rises tally limit room 1) := by
  refine .bind .take fun opening token => ?_
  refine .bind (bounded.typeId room) fun type risesType => ?_
  refine .bind .expect fun closing tokenClosing => ?_
  refine .bind (bounded.cast room) fun operand rises => .pure ?_
  exact AllRise.rises_list (.cons token.rises (.cons risesType
    (.cons tokenClosing.rises rises.single))) _

theorem unary_builds (bounded : Bounded tally limit g) :
    Builds limit room (unary g) (Rises tally limit room 1) := by
  refine .bind .take fun operator token => ?_
  refine .bind (bounded.cast room) fun operand rises => .pure ?_
  exact AllRise.rises_list (.cons token.rises rises.single) _

theorem sizeofOperand_builds (bounded : Bounded tally limit g) :
    Builds limit room (sizeofOperand g) (Rises tally limit room 1) := by
  refine .bind .take fun keyword token => .asks fun isType => ?_
  split
  · refine .bind .take fun opening tokenOpening => ?_
    refine .bind (bounded.typeId room) fun type rises => ?_
    refine .bind .expect fun closing tokenClosing => .pure ?_
    exact AllRise.rises_list (.cons token.rises (.cons tokenOpening.rises
      (.cons rises tokenClosing.rises.single))) _
  · refine .bind (bounded.cast room) fun operand rises => .pure ?_
    exact AllRise.rises_list (.cons token.rises rises.single) _

theorem newObject_builds (bounded : Bounded tally limit g) :
    Builds limit room (newObject g) (Rises tally limit room (tally.links room + 3)) := by
  refine .bind .take fun keyword token => ?_
  refine .bind (bounded.typeId room) fun type risesType => ?_
  have front : AllRise tally limit room (tally.links room + 2) [keyword, type.tree] :=
    .cons token.rises (risesType.mono (Nat.zero_le _)).single
  refine .optional (fun opening tokenOpening => ?_) (.pure (front.rises_list _))
  refine .bind (arguments_builds bounded) fun operands rises => ?_
  refine .bind .expect fun closing tokenClosing => .pure ?_
  exact AllRise.rises_list (front.append (.cons tokenOpening.rises
    (.cons rises tokenClosing.rises.single))) _

theorem deleteObject_builds (bounded : Bounded tally limit g) :
    Builds limit room (deleteObject g) (Rises tally limit room 1) := by
  refine .bind .take fun keyword token => ?_
  have single : Builds limit room (do
      let operand ← g.cast
      return Tree.list .deleteExpr [keyword, operand]) (Rises tally limit room 1) := by
    refine .bind (bounded.cast room) fun operand rises => .pure ?_
    exact AllRise.rises_list (.cons token.rises rises.single) _
  refine .sees (.kindBehind fun found => ?_) (.kindBehind fun found => single)
  split
  · refine .bind .take fun opening tokenOpening => .bind .take fun closing tokenClosing => ?_
    refine .bind (bounded.cast room) fun operand rises => .pure ?_
    exact AllRise.rises_list (.cons token.rises (.cons tokenOpening.rises
      (.cons tokenClosing.rises rises.single))) _
  · exact single

theorem castExpression_builds (bounded : Bounded tally limit g) :
    Builds limit room (castExpression g) (Rises tally limit room 0) := by
  refine .nestedRises (fun links => 3 * links + 4) (fun links le => by omega) fun less => ?_
  refine .kind fun found => ?_
  split
  · exact (unary_builds bounded).higher (by omega)
  · split
    · refine .asks fun isType => ?_
      split
      · exact (prefixCast_builds bounded).higher (by omega)
      · exact postfixExpression_builds bounded
    · exact (sizeofOperand_builds bounded).higher (by omega)
    · exact (newObject_builds bounded).higher (by omega)
    · exact (deleteObject_builds bounded).higher (by omega)
    · exact postfixExpression_builds bounded

theorem binaryLink_builds (bounded : Bounded tally limit g) (precedence : Nat)
    {base level : Nat} {left : Tree.Plain} (chain : Chain tally limit room base level left) :
    Climbs limit level (Chain tally limit room base) (binaryLink g precedence left) := by
  have answered : ∀ state, nextPrecedence? state = .ok
      (precedence? (kindOf state.tokens) (0 < state.templateDepth)) state := fun _ => rfl
  refine .ask answered fun answer => ?_
  cases answer with
  | none => exact .done chain
  | some next =>
    dsimp only
    split
    · exact .done chain
    · refine .link fun less same => .bind .take fun operator token => ?_
      subst same
      refine .bind (bounded.binary less next) fun right rises => .pure ?_
      have le := chain.links_le
      exact chain.extend (.cons token.rises rises.single) (by omega) rfl

theorem binaryExpression_builds (bounded : Bounded tally limit g) (precedence : Nat) :
    Builds limit room (binaryExpression g precedence)
      (Rises tally limit room (tally.links room)) := by
  have low (_ : room ≤ limit) : 0 < 3 * tally.links limit + 8 := Nat.succ_pos _
  have built := chain_builds low (castExpression_builds bounded) fun level left chain =>
    binaryLink_builds bounded precedence chain
  exact built.higher (Nat.le_of_eq (Nat.zero_add _))

/-! ## Conditional, assignment and comma expressions -/

theorem nestedAssignment_builds (bounded : Bounded tally limit g) :
    Builds limit room (nested g.assignment) (Rises tally limit room 0) :=
  .nestedRises (fun links => links + 1) (fun links le => by omega)
    fun less => bounded.assignment less

theorem conditionalExpression_builds (bounded : Bounded tally limit g) :
    Builds limit room (conditionalExpression g) (Rises tally limit room (tally.links room)) := by
  refine .ofRoom fun le => ?_
  refine .bind (binaryExpression_builds bounded lowest) fun condition risesCondition => ?_
  refine .optional (fun question token => ?_) (.pure risesCondition)
  refine .bind (bounded.expression room) fun chosen risesChosen => ?_
  refine .bind .expect fun colon tokenColon => ?_
  refine .bind (nestedAssignment_builds bounded) fun otherwise rises => .pure ?_
  have parts : AllRise tally limit room (2 * tally.links room + 1)
      [condition, question, chosen, colon, otherwise] :=
    .cons (risesCondition.mono (by omega)) (.cons token.rises (.cons risesChosen
      (.cons tokenColon.rises (rises.mono (Nat.zero_le _)).single)))
  have low : 2 * tally.links room + 1 < 3 * tally.links limit + 8 := by
    have links := tally.links_mono le
    omega
  exact (parts.rises_counted (tally.counts_of_isUncounted rfl) none none low).mono (Nat.zero_le _)

theorem throwExpression_builds (bounded : Bounded tally limit g) {keyword : Tree.Plain}
    (token : IsToken keyword) :
    Builds limit room (throwExpression g keyword)
      (Rises tally limit room (tally.links room + 1)) := by
  refine .asks fun more => ?_
  have made (operand : Tree.Plain) (rises : operand.Rises tally limit room (tally.links room)) :
      Builds limit room (pure (Tree.list .throwExpr [keyword, operand]))
        (Rises tally limit room (tally.links room + 1)) :=
    .pure (AllRise.rises_list (.cons token.rises rises.single) _)
  split
  · exact .bind (nestedAssignment_builds bounded) fun operand rises =>
      made operand (rises.mono (Nat.zero_le _))
  · exact .bind (.pure rises_nil) made

theorem assignmentExpression_builds (bounded : Bounded tally limit g) :
    Builds limit room (assignmentExpression g) (Rises tally limit room (tally.links room + 1)) := by
  refine .optional (fun keyword token => throwExpression_builds bounded token) ?_
  refine .bind (conditionalExpression_builds bounded) fun left risesLeft => ?_
  refine .asks fun assigns => ?_
  split
  · refine .bind .take fun operator token => ?_
    refine .bind (nestedAssignment_builds bounded) fun right rises => .pure ?_
    exact AllRise.rises_list
      (.cons risesLeft (.cons token.rises (rises.mono (Nat.zero_le _)).single)) _
  · exact .pure (risesLeft.mono (Nat.le_succ _))

theorem commaLink_builds (bounded : Bounded tally limit g) {base level : Nat}
    {left : Tree.Plain} (chain : Chain tally limit room base level left) :
    Climbs limit level (Chain tally limit room base) (commaLink g left) := by
  have answered : ∀ state, sees .comma state = .ok (kindOf state.tokens == .comma) state :=
    fun _ => rfl
  refine .ask answered fun answer => ?_
  split
  · refine .link fun less same => .bind .take fun comma token => ?_
    subst same
    refine .bind (assignmentExpression_builds bounded) fun right rises => .pure ?_
    have le := chain.links_le
    exact chain.extend (.cons token.rises rises.single) (by omega) rfl
  · exact .done chain

theorem commaExpression_builds (bounded : Bounded tally limit g) :
    Builds limit room (commaExpression g)
      (Rises tally limit room (2 * tally.links room + 1)) := by
  have low (le : room ≤ limit) : tally.links room + 1 < 3 * tally.links limit + 8 := by
    have links := tally.links_mono le
    omega
  have built := chain_builds low (assignmentExpression_builds bounded) fun level left chain =>
    commaLink_builds bounded chain
  exact built.higher (by omega)

end Grammar
end CppNames
