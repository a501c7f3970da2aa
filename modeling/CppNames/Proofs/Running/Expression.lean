import CppNames.Proofs.Encoding.Component
import CppNames.Proofs.Running.Repeat

namespace CppNames
namespace Grammar

/-!
# How expressions run

Every operand but the first stands behind a token of its own, which is what makes room for the
level of the recursion that reads it.  The `long`s of a builtin type are counted in one byte; how
many of them a text has bounds how many a type in it can have.
-/

/-!
## How names run

`Lasting` says of two collections of the recursive productions how they are known to run, and
the lemmas below conclude from it how every production runs that is written over them.  There
has to be room for one level of the recursion where an expression, a type or a parameter is met,
and for two where a declaration or a statement is, since these may begin with the former.

A name passes a token at least.  Its last component and the name of its template can be read;
only the type behind the keyword `operator` is shown as a text, which may fail.
-/

section

/-- How the recursive productions run at a level. -/
structure Lasting (terms : Terms) (levels : Nat) (g twin : Productions) : Prop where
  typeId {spare : Nat} {state : State} : Ready terms levels (spare + 1) state →
    Runs terms state g.typeId twin.typeId nothing anything
  assignment {spare : Nat} {state : State} : Ready terms levels (spare + 1) state →
    Runs terms state g.assignment twin.assignment nothing anything
  expression {spare : Nat} {state : State} : Ready terms levels (spare + 1) state →
    Runs terms state g.expression twin.expression nothing anything
  cast {spare : Nat} {state : State} : Ready terms levels (spare + 1) state →
    Runs terms state g.cast twin.cast nothing anything
  binary (minimum : Nat) {spare : Nat} {state : State} : Ready terms levels (spare + 1) state →
    Runs terms state (g.binary minimum) (twin.binary minimum) nothing anything
  initializers {spare paid : Nat} {state : State} : Ready terms levels (spare + 1) state →
    Pays terms state paid → Runs terms state g.initializers twin.initializers nothing anything
  parameter {spare : Nat} {state : State} : Ready terms levels (spare + 1) state →
    Runs terms state g.parameter twin.parameter nothing anything
  declaration (place : Place) {spare : Nat} {state : State} :
    Ready terms levels (spare + 2) state →
    Runs terms state (g.declaration place) (twin.declaration place) (fun _ => 1) anything
  statement {spare : Nat} {state : State} : Ready terms levels (spare + 2) state →
    Runs terms state g.statement twin.statement (fun _ => 1) anything

variable {terms : Terms} {levels spare paid : Nat} {state : State} {g twin : Productions}

/-- In front of the keyword `operator` it is admitted that an encoding cannot be shown. -/
theorem Ready.admits_flaw (ready : Ready terms levels spare state)
    (front : kindOf state.tokens = .kwOperator) (flaw : Encoding.Flaw) :
    terms.may (.flaw flaw) := by
  refine ready.operators.elim (· flaw) fun none => ?_
  cases tokens : state.tokens with
  | nil => rw [tokens] at front; cases front
  | cons token rest =>
    rw [tokens] at front none
    exact absurd front (none token List.mem_cons_self)

/-! ## Template arguments -/

theorem templateArgument_runs (lasting : Lasting terms levels g twin)
    (ready : Ready terms levels (spare + 1) state) :
    Runs terms state (templateArgument g) (templateArgument twin) nothing anything := by
  refine .asks fun isType => ?_
  split
  · exact lasting.typeId ready
  · exact .answering (lasting.assignment ready) fun _ => rfl

theorem templateArgumentList_runs (lasting : Lasting terms levels g twin)
    (ready : Ready terms levels (spare + 1) state) :
    Runs terms state (templateArgumentList g) (templateArgumentList twin) nothing anything := by
  refine .behind ready .splitShift fun _ _ ready => .sees (fun _ => .pure rfl trivial) fun _ => ?_
  refine .repeating ready fun parts state ready => ?_
  refine .behind ready (templateArgument_runs lasting ready) fun argument _ ready => ?_
  exact .optional ready rfl (fun _ _ _ => .pure rfl trivial) (.pure rfl trivial)

theorem templateArguments_runs (lasting : Lasting terms levels g twin)
    (ready : Ready terms levels (spare + 1) state) :
    Runs terms state (templateArguments g) (templateArguments twin) (fun _ => 1) anything := by
  refine .behind ready .take fun opening _ ready => ?_
  refine .behind ready (.inTemplate ready fun _ => templateArgumentList_runs lasting)
    fun _ _ ready => ?_
  exact .answering (.expect ready rfl) fun _ => rfl

/-! ## Components -/

/-- A component is read together with an encoding that is spelled in full. -/
def Componed (component : NameComponent) (_ : State) : Prop := component.encoding.IsComponent

theorem identifierComponent_runs (lasting : Lasting terms levels g twin)
    (ready : Ready terms levels spare state) (pays : Pays terms state paid) (inType : Bool) :
    Runs terms state (identifierComponent g inType) (identifierComponent twin inType)
      (fun _ => paid) Componed := by
  refine .takeFront ready pays fun identifier _ ready => .asks fun isTemplate => ?_
  refine .sees (fun _ => ?_) fun _ => ?_
  · split
    · exact .behind ready (templateArguments_runs lasting ready).any fun _ _ _ =>
        .pure rfl (.templateId ..)
    · exact .pure rfl (.simpleName _)
  · exact .pure rfl (.simpleName _)

theorem destructorComponent_runs (ready : Ready terms levels spare state) :
    Runs terms state destructorComponent destructorComponent (fun _ => 1) Componed :=
  .behind ready .take fun _ _ ready => .behind ready (.expect ready rfl) fun _ _ _ =>
    .pure rfl (.simpleName _)

theorem bracketOperator_runs (ready : Ready terms levels spare state) {closing : Token.Kind}
    {shown : String} (real : (closing == .endOfFile) = false) :
    Runs terms state (bracketOperator closing shown) (bracketOperator closing shown) nothing
      anything :=
  .behind ready .take fun _ _ ready => .answering (.expect ready real) fun _ => rfl

theorem allocationOperator_runs (ready : Ready terms levels spare state) :
    Runs terms state allocationOperator allocationOperator nothing anything := by
  refine .behind ready .take fun keyword _ ready => .ask (fun _ => rfl) <| .kindBehind fun _ _ => ?_
  split
  · exact .behind ready .take fun _ _ ready => .answering .take fun _ => rfl
  · exact .pure rfl trivial

theorem operatorSuffix_runs (lasting : Lasting terms levels g twin)
    (ready : Ready terms levels (spare + 1) state) (admits : ∀ flaw, terms.may (.flaw flaw)) :
    Runs terms state (operatorSuffix g) (operatorSuffix twin) nothing anything := by
  refine .kind fun found _ => ?_
  split
  · exact bracketOperator_runs ready rfl
  · exact bracketOperator_runs ready rfl
  · exact allocationOperator_runs ready
  · exact allocationOperator_runs ready
  · split
    · exact .answering .take fun _ => rfl
    · exact .behind ready (lasting.typeId ready) fun _ _ _ =>
        .reading (fun flaw _ => admits flaw) fun _ _ => .pure rfl trivial

theorem operatorComponent_runs (lasting : Lasting terms levels g twin)
    (ready : Ready terms levels spare state) (pays : Pays terms state paid)
    (admits : ∀ flaw, terms.may (.flaw flaw)) :
    Runs terms state (operatorComponent g) (operatorComponent twin) (fun _ => paid) Componed :=
  .takeFront ready pays fun _ _ ready =>
    .behind ready (operatorSuffix_runs lasting ready admits) fun _ _ _ => .pure rfl (.simpleName _)

theorem nameComponent_runs (lasting : Lasting terms levels g twin)
    (ready : Ready terms levels spare state) (inType : Bool) :
    Runs terms state (nameComponent g inType) (nameComponent twin inType) (fun _ => 1)
      Componed := by
  refine .kind fun found front => ?_
  split
  · exact identifierComponent_runs lasting ready (pays_of_kind front (by decide)) inType
  · exact destructorComponent_runs ready
  · exact operatorComponent_runs lasting ready (pays_of_kind front (by decide))
      (ready.admits_flaw front)
  · exact .fail

/-! ## Names -/

/-- The parts of a name are components. -/
def Composed (parts : NameParts) (_ : State) : Prop :=
  ∀ encoding ∈ parts.encodings, encoding.IsComponent

theorem nameComponents_runs (lasting : Lasting terms levels g twin)
    (ready : Ready terms levels spare state) (inType : Bool) {start : NameParts}
    (begins : Composed start state) :
    Runs terms state (nameComponents g inType start) (nameComponents twin inType start)
      (fun _ => 1) fun parts after => Composed parts after ∧ parts.encodings ≠ [] := by
  refine .repeatFrom ready begins fun parts state ready composed => ?_
  refine .bind ready (nameComponent_runs lasting ready inType) fun component _ _ ready added => ?_
  have composedMore (encoding) (member : encoding ∈ parts.encodings ++ [component.encoding]) :
      encoding.IsComponent := by
    rcases List.mem_append.mp member with before | last
    · exact composed encoding before
    · exact List.mem_singleton.mp last ▸ added
  refine .ask (fun _ => rfl) <| .kindBehind fun _ _ => ?_
  split
  · refine .behind ready .take fun _ _ ready => ?_
    exact .optional ready rfl (fun _ _ _ => .pure rfl composedMore) (.pure rfl composedMore)
  · exact .pure rfl ⟨composedMore, List.append_ne_nil_of_right_ne_nil _ (List.cons_ne_nil _ _)⟩

/-- What a name's last component and the name of its template are can be told. -/
def Told (named : Encoded) (_ : State) : Prop :=
  ∃ last plain, named.encoding.lastName = .ok last ∧ last.templateName = .ok plain

theorem name_runs (lasting : Lasting terms levels g twin) (ready : Ready terms levels spare state)
    (inType : Bool) :
    Runs terms state (name g inType) (name twin inType) (fun _ => 1) Told := by
  have parts {start : NameParts} {state : State} {spare : Nat}
      (ready : Ready terms levels spare state)
      (begins : ∀ encoding ∈ start.encodings, encoding.IsComponent) :
      Runs terms state
        (nameComponents g inType start >>= fun parts =>
          pure ⟨nameTree parts.elements (.qualified parts.encodings), .qualified parts.encodings⟩)
        (nameComponents twin inType start >>= fun parts =>
          pure ⟨nameTree parts.elements (.qualified parts.encodings), .qualified parts.encodings⟩)
        (fun _ => 1) Told := by
    refine .bind ready (nameComponents_runs lasting ready inType begins) fun parts _ _ _ read => ?_
    rcases Encoding.exists_lastName_qualified read.2 read.1 with ⟨last, told, component⟩
    rcases Encoding.exists_templateName component with ⟨plain, toldPlain⟩
    exact .pure rfl ⟨last, plain, told, toldPlain⟩
  refine .optional ready rfl (fun colons _ ready => ?_) ?_
  · exact (parts ready (by simpa using .globalScope)).weaken (fun _ => Nat.zero_le _) fun _ _ => id
  · exact parts ready (by simp)

end

variable {terms : Terms} {levels spare paid : Nat} {state : State} {g twin : Productions}

/-! ## Casts that look like calls -/

theorem arguments_runs (lasting : Lasting terms levels g twin)
    (ready : Ready terms levels (spare + 1) state) :
    Runs terms state (arguments g) (arguments twin) nothing anything := by
  refine .sees (fun _ => .pure rfl trivial) fun _ => ?_
  have items (state) (ready : Ready terms levels (spare + 1) state) :
      Runs terms state (do return [← g.assignment]) (do return [← twin.assignment]) nothing
        anything :=
    .answering (lasting.assignment ready) fun _ => rfl
  refine .behind ready (.inParentheses ready fun _ ready => .commaSeparated ready items) ?_
  exact fun _ _ _ => .pure rfl trivial

theorem callCast_runs (lasting : Lasting terms levels g twin)
    (ready : Ready terms levels spare state) (type : Tree.Plain) (encoding : Encoding) :
    Runs terms state (callCast g type encoding) (callCast twin type encoding) nothing anything := by
  refine .behind ready (.expect ready rfl) fun _ _ ready => ?_
  refine .behind ready (arguments_runs lasting ready) fun _ _ ready => ?_
  exact .answering (.expect ready rfl) fun _ => rfl

/-! ## Primary expressions -/

theorem parenthesized_runs (lasting : Lasting terms levels g twin)
    (ready : Ready terms levels spare state) (pays : Pays terms state paid) :
    Runs terms state (parenthesized g) (parenthesized twin) nothing anything := by
  refine .takeMore ready pays fun _ _ ready => ?_
  refine .behind ready (.inParentheses ready fun _ => lasting.expression) fun _ _ ready => ?_
  exact .answering (.expect ready rfl) fun _ => rfl

theorem typeidOperand_runs (lasting : Lasting terms levels g twin)
    (ready : Ready terms levels spare state) :
    Runs terms state (typeidOperand g) (typeidOperand twin) nothing anything := by
  refine .behind ready .take fun _ _ ready => .behind ready (.expect ready rfl) fun _ _ ready => ?_
  refine .asks fun isType => .bindIf ready (fun _ => .map (lasting.typeId ready))
    (fun _ => lasting.expression ready) fun _ _ ready => ?_
  exact .answering (.expect ready rfl) fun _ => rfl

theorem exists_add? (words : BuiltinWords) {kind : Token.Kind}
    (few : words.longs + [kind].count .kwLong < capacity 8) :
    ∃ more, words.add? kind = some more ∧ more.longs = words.longs + [kind].count .kwLong := by
  rw [List.count_singleton] at few ⊢
  unfold BuiltinWords.add?
  split
  · exact ⟨_, rfl, rfl⟩
  · exact ⟨_, rfl, rfl⟩
  · exact ⟨_, rfl, rfl⟩
  · exact ⟨_, if_pos few, rfl⟩
  · next other =>
    have same : (kind == .kwLong) = false := beq_eq_false_iff_ne.mpr other
    rw [same]
    exact ⟨_, rfl, rfl⟩

/-- As many `long`s as one byte can count are read. -/
theorem exists_ofKinds? (words : BuiltinWords) {kinds : List Token.Kind}
    (few : words.longs + kinds.count .kwLong < capacity 8) :
    ∃ spelled, kinds.foldlM BuiltinWords.add? words = some spelled := by
  induction kinds generalizing words with
  | nil => exact ⟨words, rfl⟩
  | cons kind rest ih =>
    rw [← List.singleton_append, List.count_append] at few
    have fewFirst : words.longs + [kind].count .kwLong < capacity 8 := by omega
    rcases exists_add? words fewFirst with ⟨more, added, longs⟩
    rcases ih more (by omega) with ⟨spelled, read⟩
    exact ⟨spelled, by rw [List.foldlM_cons, added]; exact read⟩

theorem builtinCast_runs (lasting : Lasting terms levels g twin)
    (ready : Ready terms levels spare state) :
    Runs terms state (builtinCast g) (builtinCast twin) nothing anything := by
  refine .bind ready (.takeRun ready rfl) fun words _ _ readyBehind kept => ?_
  refine .counting (fun tooMany => ?_) fun _ _ => callCast_runs lasting readyBehind _ _
  refine ready.longs.resolve_right fun few => ?_
  have fewTaken : ({} : BuiltinWords).longs + longsTaken words < capacity 8 := by
    change 0 + longsTaken words < _
    omega
  rcases exists_ofKinds? {} fewTaken with ⟨spelled, read⟩
  rw [BuiltinWords.ofKinds?, read] at tooMany
  cases tooMany

theorem nameOrCast_runs (lasting : Lasting terms levels g twin)
    (ready : Ready terms levels spare state) :
    Runs terms state (nameOrCast g) (nameOrCast twin) nothing anything := by
  refine .bind ready (name_runs lasting ready false) fun named _ _ ready told => ?_
  rcases told with ⟨last, plain, told, toldPlain⟩
  refine .reading (fun flaw fails => ?_) fun _ read => ?_
  · rw [told] at fails
    cases fails
  · rw [told] at read
    cases read
    refine .reading (fun flaw fails => ?_) fun _ _ => ?_
    · rw [toldPlain] at fails
      cases fails
    · refine .asks fun isType => .ask (fun _ => rfl) ?_
      split
      · exact callCast_runs lasting ready _ _
      · exact .pure rfl trivial

theorem primary_runs (lasting : Lasting terms levels g twin)
    (ready : Ready terms levels spare state) :
    Runs terms state (primary g) (primary twin) nothing anything := by
  refine .kind fun found front => ?_
  split
  · exact .take
  · split
    · exact .take
    · exact .take
    · exact .take
    · exact parenthesized_runs lasting ready (pays_of_kind front (by decide))
    · exact typeidOperand_runs lasting ready
    · exact nameOrCast_runs lasting ready
    · exact nameOrCast_runs lasting ready
    · exact nameOrCast_runs lasting ready
    · exact nameOrCast_runs lasting ready
    · split
      · exact builtinCast_runs lasting ready
      · exact .fail

/-! ## Chains of operators -/

theorem postfixLink_links (lasting : Lasting terms levels g twin)
    (ready : Ready terms levels spare state) (left : Tree.Plain) :
    Links terms state (postfixLink g left) (postfixLink twin left) := by
  refine .kind fun found front => ?_
  split
  · refine .link ready fun ready => .takeFront ready (pays_of_kind front (by decide)) ?_
    refine fun _ _ ready => .behind ready (lasting.expression ready) fun _ _ ready => ?_
    exact .behind ready (.expect ready rfl) fun _ _ _ => .pure rfl trivial
  · refine .link ready fun ready => .takeFront ready (pays_of_kind front (by decide)) ?_
    refine fun _ _ ready => .behind ready (arguments_runs lasting ready) fun _ _ ready => ?_
    exact .behind ready (.expect ready rfl) fun _ _ _ => .pure rfl trivial
  · refine .link ready fun ready => .takeFront ready (pays_of_kind front (by decide)) ?_
    exact fun _ _ ready => .bind ready (name_runs lasting ready false) fun _ _ _ _ _ =>
      .pure rfl trivial
  · refine .link ready fun ready => .takeFront ready (pays_of_kind front (by decide)) ?_
    exact fun _ _ ready => .bind ready (name_runs lasting ready false) fun _ _ _ _ _ =>
      .pure rfl trivial
  · refine .link ready fun ready => .takeFront ready (pays_of_kind front (by decide)) ?_
    exact fun _ _ _ => .pure rfl trivial
  · refine .link ready fun ready => .takeFront ready (pays_of_kind front (by decide)) ?_
    exact fun _ _ _ => .pure rfl trivial
  · exact .done

theorem postfixExpression_runs (lasting : Lasting terms levels g twin)
    (ready : Ready terms levels spare state) :
    Runs terms state (postfixExpression g) (postfixExpression twin) nothing anything :=
  .chained ready (primary_runs lasting ready) fun left _ ready =>
    postfixLink_links lasting ready left

/-! ## Unary and binary expressions -/

theorem prefixCast_runs (lasting : Lasting terms levels g twin)
    (ready : Ready terms levels spare state) (pays : Pays terms state paid) :
    Runs terms state (prefixCast g) (prefixCast twin) nothing anything := by
  refine .takeMore ready pays fun _ _ ready => ?_
  refine .behind ready (lasting.typeId ready) fun _ _ ready => ?_
  refine .behind ready (.expect ready rfl) fun _ _ ready => ?_
  exact .answering (lasting.cast ready) fun _ => rfl

theorem unary_runs (lasting : Lasting terms levels g twin)
    (ready : Ready terms levels spare state) (pays : Pays terms state paid) :
    Runs terms state (unary g) (unary twin) nothing anything := by
  refine .takeMore ready pays fun _ _ ready => ?_
  exact .answering (lasting.cast ready) fun _ => rfl

theorem sizeofOperand_runs (lasting : Lasting terms levels g twin)
    (ready : Ready terms levels spare state) (pays : Pays terms state paid) :
    Runs terms state (sizeofOperand g) (sizeofOperand twin) nothing anything := by
  refine .takeMore ready pays fun _ _ ready => .asks fun isType => ?_
  split
  · refine .behind ready .take fun _ _ ready => ?_
    refine .behind ready (lasting.typeId ready) fun _ _ ready => ?_
    exact .answering (.expect ready rfl) fun _ => rfl
  · exact .answering (lasting.cast ready) fun _ => rfl

theorem newObject_runs (lasting : Lasting terms levels g twin)
    (ready : Ready terms levels spare state) (pays : Pays terms state paid) :
    Runs terms state (newObject g) (newObject twin) nothing anything := by
  refine .takeMore ready pays fun _ _ ready => ?_
  refine .behind ready (lasting.typeId ready) fun _ _ ready => ?_
  refine .optional ready rfl (fun _ _ ready => ?_) (.pure rfl trivial)
  refine .behind ready (arguments_runs lasting ready) fun _ _ ready => ?_
  exact .answering (.expect ready rfl) fun _ => rfl

theorem deleteObject_runs (lasting : Lasting terms levels g twin)
    (ready : Ready terms levels spare state) (pays : Pays terms state paid) :
    Runs terms state (deleteObject g) (deleteObject twin) nothing anything := by
  refine .takeMore ready pays fun _ _ ready => ?_
  refine .ask (fun _ => rfl) <| .kindBehind fun _ _ => ?_
  split
  · refine .behind ready .take fun _ _ ready => .behind ready .take fun _ _ ready => ?_
    exact .answering (lasting.cast ready) fun _ => rfl
  · exact .answering (lasting.cast ready) fun _ => rfl

theorem castExpression_runs (lasting : Lasting terms levels g twin)
    (ready : Ready terms levels spare state) :
    Runs terms state (castExpression g) (castExpression twin) nothing anything := by
  refine .nested ready fun ready => .kind fun found front => ?_
  split
  · next isOperator =>
    have more : found ≠ .endOfFile := fun ended => by rw [ended] at isOperator; cases isOperator
    exact unary_runs lasting ready (pays_of_kind front more)
  · split
    · refine .asks fun isType => ?_
      split
      · exact prefixCast_runs lasting ready (pays_of_kind front (by decide))
      · exact postfixExpression_runs lasting ready
    · exact sizeofOperand_runs lasting ready (pays_of_kind front (by decide))
    · exact newObject_runs lasting ready (pays_of_kind front (by decide))
    · exact deleteObject_runs lasting ready (pays_of_kind front (by decide))
    · exact postfixExpression_runs lasting ready

theorem binaryLink_links (lasting : Lasting terms levels g twin)
    (ready : Ready terms levels spare state) (minimum : Nat) (left : Tree.Plain) :
    Links terms state (binaryLink g minimum left) (binaryLink twin minimum left) := by
  refine .ask (fun _ => rfl) ?_
  cases front : precedence? (kindOf state.tokens) (0 < state.templateDepth) with
  | none => exact .done
  | some precedence =>
    have more : kindOf state.tokens ≠ .endOfFile := by
      intro ended
      rw [ended] at front
      cases front
    dsimp only
    split
    · exact .done
    · refine .link ready fun ready => .takeFront ready (pays_of_kind rfl more) fun _ _ ready => ?_
      exact .behind ready (lasting.binary precedence ready) fun _ _ _ => .pure rfl trivial

theorem binaryExpression_runs (lasting : Lasting terms levels g twin)
    (ready : Ready terms levels spare state) (minimum : Nat) :
    Runs terms state (binaryExpression g minimum) (binaryExpression twin minimum) nothing
      anything :=
  .chained ready (castExpression_runs lasting ready) fun left _ ready =>
    binaryLink_links lasting ready minimum left

/-! ## Conditional, assignment and comma expressions -/

theorem nestedAssignment_runs (lasting : Lasting terms levels g twin)
    (ready : Ready terms levels (spare + 1) state) :
    Runs terms state (nested g.assignment) (nested twin.assignment) nothing anything :=
  .nested ready lasting.assignment

theorem conditionalExpression_runs (lasting : Lasting terms levels g twin)
    (ready : Ready terms levels spare state) :
    Runs terms state (conditionalExpression g) (conditionalExpression twin) nothing anything := by
  refine .behind ready (binaryExpression_runs lasting ready lowest) fun _ _ ready => ?_
  refine .optional ready rfl (fun _ _ ready => ?_) (.pure rfl trivial)
  refine .behind ready (lasting.expression ready) fun _ _ ready => ?_
  refine .behind ready (.expect ready rfl) fun _ _ ready => ?_
  exact .answering (nestedAssignment_runs lasting ready) fun _ => rfl

theorem throwExpression_runs (lasting : Lasting terms levels g twin)
    (ready : Ready terms levels (spare + 1) state) (keyword : Tree.Plain) :
    Runs terms state (throwExpression g keyword) (throwExpression twin keyword) nothing anything := by
  refine .asks fun operand => .bindIf ready (fun _ => nestedAssignment_runs lasting ready)
    (fun _ => .pure rfl trivial) fun _ _ _ => .pure rfl trivial

theorem assignmentExpression_runs (lasting : Lasting terms levels g twin)
    (ready : Ready terms levels spare state) :
    Runs terms state (assignmentExpression g) (assignmentExpression twin) nothing anything := by
  refine .optional ready rfl (fun keyword _ ready => throwExpression_runs lasting ready keyword) ?_
  refine .behind ready (conditionalExpression_runs lasting ready) fun _ state ready => ?_
  refine .ask (fun _ => rfl) ?_
  split
  · next assigns =>
    have more : kindOf state.tokens ≠ .endOfFile := by
      intro ended
      rw [atAssignment, ended] at assigns
      cases assigns
    refine .takeMore ready (pays_of_kind rfl more) fun _ _ ready => ?_
    exact .answering (nestedAssignment_runs lasting ready) fun _ => rfl
  · exact .pure rfl trivial

theorem commaLink_links (lasting : Lasting terms levels g twin)
    (ready : Ready terms levels spare state) (left : Tree.Plain) :
    Links terms state (commaLink g left) (commaLink twin left) := by
  refine .ask (fun _ => rfl) ?_
  split
  · next comma =>
    have front : kindOf state.tokens = .comma := eq_of_beq comma
    refine .link ready fun ready => .takeFront ready (pays_of_kind front (by decide)) ?_
    exact fun _ _ ready => .behind ready (assignmentExpression_runs lasting ready) fun _ _ _ =>
      .pure rfl trivial
  · exact .done

theorem commaExpression_runs (lasting : Lasting terms levels g twin)
    (ready : Ready terms levels spare state) :
    Runs terms state (commaExpression g) (commaExpression twin) nothing anything :=
  .chained ready (assignmentExpression_runs lasting ready) fun left _ ready =>
    commaLink_links lasting ready left

end Grammar
end CppNames
