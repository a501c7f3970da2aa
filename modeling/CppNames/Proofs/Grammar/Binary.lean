import CppNames.Proofs.Running.Level

namespace CppNames
namespace Grammar

/-!
# How binary expressions are grouped

A chain of operands and operators is grouped by the precedences of the operators, and operators of
one precedence are grouped to the left.  The loop that reads the chain folds to the left, and its
right operands are read by the same production above the precedence of their operator; so the right
operand of an operator is bound more tightly than the operator, the left one at least as tightly,
and whatever follows an expression is no operator that could have extended it.

Whether `>` and `>>` are operators depends on the depth of template arguments, which an operand may
change on its way and gives back in its end.  So the context in front of an expression is that of
all its operators and of the token behind it.
-/

variable {α β : Type} {g : Productions} {depth lower level precedence : Nat} {closes : Bool}
  {before middle after : State} {tree left right : Tree.Plain}

/-! ## Grouped expressions -/

/-- The precedence of the next token as a binary operator, if it is one there. -/
def State.precedence? (state : State) : Option Nat :=
  Grammar.precedence? (kindOf state.tokens) (0 < state.templateDepth)

/-- The precedence of the operator between the operands of a binary expression. -/
def operatorPrecedence? (closes : Bool) (tree : Tree.Plain) : Option Nat :=
  tree.second.kind?.bind (precedence? · closes)

/-- If a tree is a binary expression, its operator has at least a given precedence. -/
def BindsFrom (closes : Bool) (precedence : Nat) (tree : Tree.Plain) : Prop :=
  tree.isA .infixExpr = true → ∃ own, operatorPrecedence? closes tree = some own ∧ precedence ≤ own

/-- A tree is read between two states as operands and operators above a level.  An operand that is
no binary expression is read by a cast expression; a right operand is read one level of nesting
deeper. -/
inductive Grouped (depth level : Nat) (closes : Bool) : State → Tree.Plain → State → Prop
  | operand {lower : Nat} {before after : State} {tree : Tree.Plain} (within : lower ≤ depth)
    (reads : castExpression (productions lower) before = .ok tree after)
    (single : tree.isA .infixExpr = false) :
    Grouped depth level closes before tree after
  | joined {before middle after : State} {left right : Tree.Plain} {operator : Token}
    {rest : List Token} {precedence : Nat}
    (first : Grouped depth level closes before left middle)
    (between : middle.tokens = operator :: rest)
    (second : Grouped depth level closes middle.deeper.behindNext right after)
    (known : precedence? operator.kind closes = some precedence) (above : level < precedence)
    (fromLeft : BindsFrom closes precedence left)
    (toRight : BindsFrom closes (precedence + 1) right) :
    Grouped depth level closes before
      (Tree.list .infixExpr [left, Tree.ofToken operator, right])
      (restoreDepth middle.deeper.behindNext after)

/-- An expression of operators above a level, behind which no such operator follows. -/
structure GroupedUpTo (depth level : Nat) (before : State) (tree : Tree.Plain) (after : State) :
    Prop where
  grouped : ∃ inside, Grouped depth level (0 < before.templateDepth) before tree inside ∧
    after = restoreDepth before inside
  context : after.templateDepth = before.templateDepth
  follows : ∀ precedence, after.precedence? = some precedence → precedence ≤ level

theorem Grouped.weaken {higher : Nat} (grouped : Grouped lower higher closes before tree after)
    (within : lower ≤ depth) (above : level ≤ higher) :
    Grouped depth level closes before tree after := by
  induction grouped with
  | operand room reads single => exact .operand (Nat.le_trans room within) reads single
  | joined _ between _ known higher fromLeft toRight first second =>
    exact .joined first between second known (Nat.lt_of_le_of_lt above higher) fromLeft toRight

/-- The operator of a binary expression is above the level at which it was read. -/
theorem Grouped.bindsFrom (grouped : Grouped depth level closes before tree after) :
    BindsFrom closes (level + 1) tree := by
  intro binary
  cases grouped with
  | operand _ _ single =>
    rw [single] at binary
    cases binary
  | joined _ _ _ known above _ _ => exact ⟨_, known, above⟩

/-! ## What operands are -/

/-- The two parts of a sequence that answers. -/
theorem parts_of_bind {production : Production α} {next : α → Production β} {value : β}
    (runs : (production >>= next) before = .ok value after) :
    ∃ answer middle, production before = .ok answer middle ∧
      next answer middle = .ok value after := by
  cases begins : production before with
  | error stop middle =>
    rw [bind_of_error begins] at runs
    cases runs
  | ok answer middle =>
    rw [bind_of_ok begins] at runs
    exact ⟨answer, middle, rfl, runs⟩

theorem inside_of_within {production : Production α} {enter : State → State}
    {leave : State → State → State} {value : α}
    (runs : within enter leave production before = .ok value after) :
    ∃ inside, production (enter before) = .ok value inside ∧ after = leave before inside := by
  unfold within at runs
  cases ran : production (enter before) with
  | error stop inside =>
    rw [ran] at runs
    cases runs
  | ok answer inside =>
    rw [ran] at runs
    cases runs
    exact ⟨inside, rfl, rfl⟩

/-- Whatever a production answers has a property. -/
def Yields (production : Production α) (property : α → Prop) : Prop :=
  ∀ before value after, production before = .ok value after → property value

namespace Yields

variable {production : Production α} {next : α → Production β} {property : α → Prop}
  {final : β → Prop}

theorem pure {value : α} (holds : property value) : Yields (Pure.pure value) property := by
  rintro before _ after ⟨⟩
  exact holds

/-- In a sequence only the last part decides, given what the first one answers. -/
theorem bind (first : Yields production property)
    (rest : ∀ value, property value → Yields (next value) final) :
    Yields (production >>= next) final := by
  intro before value after runs
  rcases parts_of_bind runs with ⟨answer, middle, begins, goesOn⟩
  exact rest answer (first _ _ _ begins) _ _ _ goesOn

theorem behind (rest : ∀ value, Yields (next value) final) :
    Yields (production >>= next) final := by
  have any : Yields production fun _ => True := fun _ _ _ _ => trivial
  exact any.bind fun value _ => rest value

theorem ite {condition : Prop} [Decidable condition] {other : Production α}
    (yes : Yields production property) (no : Yields other property) :
    Yields (if condition then production else other) property := by
  split
  · exact yes
  · exact no

theorem within {enter : State → State} {leave : State → State → State}
    (body : Yields production property) :
    Yields (Grammar.within enter leave production) property := by
  intro before value after runs
  rcases inside_of_within runs with ⟨inside, ran, _⟩
  exact body _ _ _ ran

theorem fail {message : Message} {arguments : List String} :
    Yields (Grammar.fail message arguments) property :=
  .behind fun _ => by rintro before value after ⟨⟩

/-- The value with which a loop goes on or ends. -/
def turned : Turn α → α
  | .again value => value
  | .done value => value

theorem repeatWithin {step : α → Production (Turn α)} {count : Nat} {start : α}
    (begins : property start)
    (turns : ∀ value, property value → Yields (step value) fun turn => property (turned turn)) :
    Yields (Grammar.repeatWithin step count start) property := by
  induction count generalizing start with
  | zero =>
    rintro before value after ⟨⟩
  | succ count ih =>
    refine .bind (turns start begins) fun turn holds => ?_
    cases turn with
    | again value => exact ih holds
    | done value => exact .pure holds

end Yields

/-- A tree that is no binary expression. -/
def Single (tree : Tree.Plain) : Prop := tree.isA .infixExpr = false

theorem single_take : Yields take Single := .behind fun _ => .behind fun _ => .pure rfl

theorem single_callCast (type : Tree.Plain) (encoding : Encoding) :
    Yields (callCast g type encoding) Single :=
  .behind fun _ => .behind fun _ => .behind fun _ => .pure rfl

theorem single_nameTree (elements : List Tree.Plain) (encoding : Encoding) :
    Single (nameTree elements encoding) := by
  unfold nameTree
  split
  · next element =>
    split
    · next identifier =>
      cases element with
      | nil => rfl
      | leaf _ _ => rfl
      | cell _ _ _ _ _ _ => cases identifier
    · rfl
  · rfl

theorem single_name : Yields (name g false) fun named => Single named.tree := by
  refine .behind fun colons => ?_
  cases colons with
  | none => exact .behind fun _ => .pure (single_nameTree _ _)
  | some colons => exact .behind fun _ => .pure (single_nameTree _ _)

theorem single_nameOrCast : Yields (nameOrCast g) Single := by
  refine .bind single_name fun named single => ?_
  refine .behind fun last => .behind fun plain => .behind fun isType => .behind fun opens => ?_
  exact .ite (single_callCast _ _) (.pure single)

theorem single_primary : Yields (primary g) Single := by
  refine .behind fun next => .ite single_take ?_
  split
  · exact single_take
  · exact single_take
  · exact single_take
  · exact .behind fun _ => .behind fun _ => .behind fun _ => .pure rfl
  · refine .behind fun _ => .behind fun _ => .behind fun isType => ?_
    exact .ite (.behind fun _ => .behind fun _ => .pure rfl)
      (.behind fun _ => .behind fun _ => .pure rfl)
  · exact single_nameOrCast
  · exact single_nameOrCast
  · exact single_nameOrCast
  · exact single_nameOrCast
  · exact .ite (.behind fun _ => .behind fun _ => single_callCast _ _) .fail

theorem single_postfixLink (left : Tree.Plain) (single : Single left) :
    Yields (postfixLink g left) fun turn => Single (Yields.turned turn) := by
  refine .behind fun next => ?_
  split
  · refine .behind fun _ => .behind fun _ => .behind fun _ => .behind fun _ => .pure rfl
  · refine .behind fun _ => .behind fun _ => .behind fun _ => .behind fun _ => .pure rfl
  · refine .behind fun _ => .behind fun _ => .behind fun _ => .pure rfl
  · refine .behind fun _ => .behind fun _ => .behind fun _ => .pure rfl
  · refine .behind fun _ => .behind fun _ => .pure rfl
  · refine .behind fun _ => .behind fun _ => .pure rfl
  · exact .pure single

theorem single_postfixExpression : Yields (postfixExpression g) Single := by
  refine .within (.bind single_primary fun start single => .behind fun _ => ?_)
  exact .repeatWithin single single_postfixLink

/-- A cast expression is never a binary one. -/
theorem single_castExpression : Yields (castExpression g) Single := by
  refine .within (.behind fun _ => .behind fun next => ?_)
  refine .ite (.behind fun _ => .behind fun _ => .pure rfl) ?_
  split
  · refine .behind fun isCast => .ite ?_ single_postfixExpression
    exact .behind fun _ => .behind fun _ => .behind fun _ => .behind fun _ => .pure rfl
  · refine .behind fun _ => .behind fun isType => .ite ?_ ?_
    · exact .behind fun _ => .behind fun _ => .behind fun _ => .pure rfl
    · exact .behind fun _ => .pure rfl
  · refine .behind fun _ => .behind fun _ => .behind fun opening => ?_
    cases opening with
    | none => exact .pure rfl
    | some opening => exact .behind fun _ => .behind fun _ => .pure rfl
  · refine .behind fun _ => .behind fun _ => .behind fun _ => .ite ?_ ?_
    · exact .behind fun _ => .behind fun _ => .behind fun _ => .pure rfl
    · exact .behind fun _ => .pure rfl
  · exact single_postfixExpression

/-! ## A turn of the loop -/

/-- All that a link of a chain of binary operators can do. -/
theorem of_binaryLink {turn : Turn Tree.Plain}
    (runs : binaryLink g level left before = .ok turn after) :
    (turn = .done left ∧ after = before ∧
      ∀ precedence, before.precedence? = some precedence → precedence ≤ level) ∨
    ∃ operator rest precedence right, before.tokens = operator :: rest ∧
      before.precedence? = some precedence ∧ level < precedence ∧
      g.binary precedence before.deeper.behindNext = .ok right after ∧
      turn = .again (Tree.list .infixExpr [left, Tree.ofToken operator, right]) := by
  have asked : nextPrecedence? before = .ok before.precedence? before := rfl
  unfold binaryLink at runs
  rw [bind_of_ok asked] at runs
  cases front : before.precedence? with
  | none =>
    rw [front] at runs
    cases runs
    exact .inl ⟨rfl, rfl, fun _ impossible => by cases impossible⟩
  | some precedence =>
    rw [front] at runs
    dsimp only at runs
    split at runs
    · next low =>
      cases runs
      refine .inl ⟨rfl, rfl, ?_⟩
      rintro _ ⟨⟩
      exact low
    · next high =>
      rcases parts_of_bind runs with ⟨_, deeper, descends, runs⟩
      rcases parts_of_bind runs with ⟨operator, behind, takes, runs⟩
      rcases parts_of_bind runs with ⟨right, last, reads, ends⟩
      have free : before.depth < before.maxDepth := by
        refine Nat.lt_of_not_le fun full => ?_
        rcases descend_of_le full with ⟨_, stops, _⟩
        rw [stops] at descends
        cases descends
      rw [descend_of_lt free] at descends
      cases descends
      cases takes
      cases ends
      cases tokens : before.tokens with
      | nil =>
        unfold State.precedence? at front
        rw [tokens] at front
        cases front
      | cons operator rest =>
        have taken : before.deeper.next = operator := by
          unfold State.next
          rw [show before.deeper.tokens = operator :: rest from tokens]
          rfl
        rw [taken]
        exact .inr ⟨operator, rest, precedence, right, rfl, rfl, Nat.lt_of_not_le high, reads, rfl⟩

/-! ## The loop -/

/-- From what is read so far the loop goes on to the whole expression, provided that no operator in
front binds more tightly than the one of what is read. -/
theorem grouped_of_repeatWithin {count : Nat} {start : State}
    (binary : ∀ {precedence before right after}, g.binary precedence before = .ok right after →
      GroupedUpTo depth precedence before right after)
    (soFar : Grouped depth level closes start left before)
    (context : closes = decide (0 < before.templateDepth))
    (follows : ∀ precedence, before.precedence? = some precedence →
      BindsFrom closes precedence left)
    (runs : repeatWithin (binaryLink g level) count left before = .ok tree after) :
    Grouped depth level closes start tree after ∧ after.templateDepth = before.templateDepth ∧
      ∀ precedence, after.precedence? = some precedence → precedence ≤ level := by
  induction count generalizing left before with
  | zero => cases runs
  | succ count ih =>
    rcases parts_of_bind runs with ⟨turn, middle, link, goesOn⟩
    rcases of_binaryLink link with ⟨rfl, rfl, low⟩ | ⟨operator, rest, precedence, right, tokens,
      front, above, reads, rfl⟩
    · cases goesOn
      exact ⟨soFar, rfl, low⟩
    · have whole := binary reads
      rcases whole.grouped with ⟨inside, grouped, rfl⟩
      subst context
      have known : precedence? operator.kind (0 < before.templateDepth) = some precedence := by
        rw [← front, State.precedence?, tokens]
        rfl
      have joined := soFar.joined tokens (grouped.weaken (Nat.le_refl _) (Nat.le_of_lt above)) known
        above (follows precedence front) grouped.bindsFrom
      have context : decide (0 < before.templateDepth) = decide (0 < (restoreDepth
          before.deeper.behindNext inside).templateDepth) := by
        rw [whole.context]
        rfl
      rcases ih joined context (fun next nextFront _ => ⟨precedence, known,
        whole.follows next nextFront⟩) goesOn with ⟨all, same, low⟩
      exact ⟨all, same.trans whole.context, low⟩

theorem GroupedUpTo.weaken (whole : GroupedUpTo lower level before tree after)
    (within : lower ≤ depth) : GroupedUpTo depth level before tree after where
  grouped := by
    rcases whole.grouped with ⟨inside, grouped, same⟩
    exact ⟨inside, grouped.weaken within (Nat.le_refl _), same⟩
  context := whole.context
  follows := whole.follows

/-- The loop begins behind an operand, in the context that was in front of it. -/
theorem groupedUpTo_of_loop
    (binary : ∀ {precedence before right after},
      (productions depth).binary precedence before = .ok right after →
        GroupedUpTo depth precedence before right after)
    (reads : binaryExpression (productions depth) level before = .ok tree after) :
    GroupedUpTo depth level before tree after := by
  rcases inside_of_within reads with ⟨inside, chain, rfl⟩
  rcases parts_of_bind chain with ⟨left, middle, operand, loop⟩
  have single := single_castExpression _ _ _ operand
  have context : middle.templateDepth = before.templateDepth :=
    ((Rule.castExpression.restores depth before).1 _ _ operand).templateDepth
  have follows : ∀ precedence, middle.precedence? = some precedence →
      BindsFrom (0 < before.templateDepth) precedence left := by
    intro precedence _ isBinary
    rw [single] at isBinary
    cases isBinary
  rcases grouped_of_repeatWithin binary (.operand (Nat.le_refl _) operand single)
    (by rw [context]) follows loop with ⟨grouped, same, low⟩
  exact ⟨⟨inside, grouped, rfl⟩, same.trans context, low⟩

theorem groupedUpTo_of_binaryExpression
    (reads : binaryExpression (productions depth) level before = .ok tree after) :
    GroupedUpTo depth level before tree after := by
  induction depth generalizing level before tree after with
  | zero =>
    refine groupedUpTo_of_loop (fun impossible => ?_) reads
    cases impossible
  | succ depth ih =>
    exact groupedUpTo_of_loop (fun deeper => (ih deeper).weaken (Nat.le_succ _)) reads

/-- Wherever a binary expression is read, its operands are read by cast expressions and grouped by
the precedences that the operators have in the context of template arguments in front of it.  All
operators are above the level that was asked for; the context is the same behind the expression,
and the token there is no operator above the level. -/
theorem binaryExpression_grouped
    (reads : binaryExpression (productions depth) level before = .ok tree after) :
    (∃ inside, Grouped depth level (0 < before.templateDepth) before tree inside ∧
      after = restoreDepth before inside) ∧
    after.templateDepth = before.templateDepth ∧
    ∀ precedence, after.precedence? = some precedence → precedence ≤ level :=
  have whole := groupedUpTo_of_binaryExpression reads
  ⟨whole.grouped, whole.context, whole.follows⟩

/-- A state inside a list of template arguments, in front of some source. -/
def inArgument (source : String) : State :=
  { State.ofTokens 8 (tokenize "" true source).1 with templateDepth := 1 }

/-- Whether a run answers a tree in a state that satisfy a test. -/
def answersWith (test : Tree.Plain → State → Bool) : EStateM.Result Stop State Tree.Plain → Bool
  | .ok tree after => test tree after
  | .error _ _ => false

/-- Inside template arguments `a-b*c-d<(e>f)>g` is read up to the second `>`.  The `-` on the right
is at the root of the left operand of `<`. -/
theorem binaryExpression_grouped_arguments :
    ∃ tree after,
      binaryExpression (productions 9) lowest (inArgument "a-b*c-d<(e>f)>g") = .ok tree after ∧
      kindOf after.tokens = .greater ∧ operatorPrecedence? true tree = some 7 ∧
      operatorPrecedence? true tree.first = some 9 ∧
      (∃ inside, Grouped 9 lowest (0 < (inArgument "a-b*c-d<(e>f)>g").templateDepth)
          (inArgument "a-b*c-d<(e>f)>g") tree inside ∧
        after = restoreDepth (inArgument "a-b*c-d<(e>f)>g") inside) ∧
      after.precedence? ≠ some 7 := by
  have answers : answersWith (fun tree after => kindOf after.tokens == .greater &&
      operatorPrecedence? true tree == some 7 && operatorPrecedence? true tree.first == some 9)
      (binaryExpression (productions 9) lowest (inArgument "a-b*c-d<(e>f)>g")) = true := by
    decide +kernel
  cases reads : binaryExpression (productions 9) lowest (inArgument "a-b*c-d<(e>f)>g") with
  | ok tree after =>
    rw [reads, answersWith] at answers
    simp only [Bool.and_eq_true, beq_iff_eq] at answers
    rcases answers with ⟨⟨closed, root⟩, inner⟩
    rcases binaryExpression_grouped reads with ⟨grouped, context, low⟩
    exact ⟨tree, after, rfl, closed, root, inner, grouped, fun seven => absurd (low 7 seven)
      (by decide)⟩
  | error stop after =>
    rw [reads] at answers
    cases answers

end Grammar
end CppNames
