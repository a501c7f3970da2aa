import CppNames.Grammar.Declarator
import CppNames.Proofs.Running.Expression

namespace CppNames
namespace Grammar

/-!
# How declarators run

What stands behind a declared name and the items of an initializer are read in loops.  Each turn
of them that goes on passes a token, of a suffix at least its closing bracket and of an item the
comma behind it.
-/

variable {terms : Terms} {levels spare paid : Nat} {state : State} {g twin : Productions}

/-! ## In front of the name -/

theorem takeQualifiers_runs (ready : Ready terms levels spare state) :
    Runs terms state (takeRun Token.Kind.isCvQualifier) (takeRun Token.Kind.isCvQualifier) nothing
      anything :=
  (Runs.takeRun ready rfl).any

theorem pointers_runs (ready : Ready terms levels spare state) (base : Encoding) :
    Runs terms state (pointers base) (pointers base) nothing anything := by
  refine .repeating ready fun read state ready => .kind fun found front => ?_
  have more (real : found ≠ .endOfFile) : kindOf state.tokens ≠ .endOfFile := front ▸ real
  split
  · refine .behindToken ready (more (by decide)) fun _ _ ready => ?_
    exact .answering (takeQualifiers_runs ready) fun _ => rfl
  · exact .behindToken ready (more (by decide)) fun _ _ _ => .pure rfl trivial
  · exact .pure rfl trivial

theorem declaredName_runs (lasting : Lasting terms levels g twin)
    (ready : Ready terms levels spare state) (form : DeclaratorForm) :
    Runs terms state (declaredName g form) (declaredName twin form) nothing anything := by
  refine .kind fun found _ => ?_
  split
  · exact .answering (name_runs lasting ready false).any fun _ => rfl
  · split
    · exact .fail
    · exact .pure rfl trivial

/-! ## Behind the name -/

theorem parameterItems_runs (lasting : Lasting terms levels g twin)
    (ready : Ready terms levels (spare + 1) state) :
    Runs terms state (parameterItems g) (parameterItems twin) nothing anything := by
  refine .repeating ready fun items _ ready => ?_
  refine .optional ready rfl (fun _ _ _ => .pure rfl trivial) ?_
  refine .behind ready (lasting.parameter ready) fun _ _ ready => ?_
  refine .optional ready rfl (fun _ _ _ => .pure rfl trivial) ?_
  exact .optional ready rfl (fun _ _ _ => .pure rfl trivial) (.pure rfl trivial)

theorem parameterClause_runs (lasting : Lasting terms levels g twin)
    (ready : Ready terms levels spare state) :
    Runs terms state (parameterClause g) (parameterClause twin) (fun _ => 1) anything := by
  refine .behind ready (.expect ready rfl) fun _ _ ready => .ask (fun _ => rfl) ?_
  refine .bindIf ready (fun _ => .pure rfl trivial) (fun _ => parameterItems_runs lasting ready) ?_
  exact fun _ _ ready => .answering (.expect ready rfl) fun _ => rfl

theorem thrownTypes_runs (lasting : Lasting terms levels g twin)
    (ready : Ready terms levels (spare + 1) state) :
    Runs terms state (thrownTypes g) (thrownTypes twin) nothing anything := by
  refine .repeating ready fun types _ ready => .sees (fun _ => .pure rfl trivial) fun _ => ?_
  refine .behind ready (lasting.typeId ready) fun _ _ ready => ?_
  exact .optional ready rfl (fun _ _ _ => .pure rfl trivial) (.pure rfl trivial)

theorem exceptionSpecification_runs (lasting : Lasting terms levels g twin)
    (ready : Ready terms levels spare state) :
    Runs terms state (exceptionSpecification g) (exceptionSpecification twin) nothing anything := by
  refine .optional ready rfl (fun _ _ ready => ?_) (.pure rfl trivial)
  refine .behind ready (.expect ready rfl) fun _ _ ready => ?_
  refine .behind ready (thrownTypes_runs lasting ready) fun _ _ ready => ?_
  exact .answering (.expect ready rfl) fun _ => rfl

theorem functionSuffix_runs (lasting : Lasting terms levels g twin)
    (ready : Ready terms levels spare state) :
    Runs terms state (functionSuffix g) (functionSuffix twin) (fun _ => 1) anything := by
  refine .behind ready (parameterClause_runs lasting ready) fun _ _ ready => ?_
  refine .behind ready (takeQualifiers_runs ready) fun _ _ ready => ?_
  exact .answering (exceptionSpecification_runs lasting ready) fun _ => rfl

theorem arraySuffix_runs (lasting : Lasting terms levels g twin)
    (ready : Ready terms levels spare state) (pays : Pays terms state paid) :
    Runs terms state (arraySuffix g) (arraySuffix twin) (fun _ => paid) anything := by
  refine .takeFront ready pays fun _ _ ready => .ask (fun _ => rfl) ?_
  refine .bindIf ready (fun _ => .pure rfl trivial) (fun _ => lasting.expression ready) ?_
  exact fun _ _ ready => .answering (.expect ready rfl) fun _ => rfl

theorem initializerArguments_runs (lasting : Lasting terms levels g twin)
    (ready : Ready terms levels spare state) (pays : Pays terms state paid) :
    Runs terms state (initializerArguments g) (initializerArguments twin) nothing anything := by
  refine .takeMore ready pays fun _ _ ready => ?_
  refine .behind ready (arguments_runs lasting ready) fun _ _ ready => ?_
  exact .answering (.expect ready rfl) fun _ => rfl

/-- A turn of the loop that reads what stands behind a declared name. -/
def suffixTurn (g : Productions) (form : DeclaratorForm) (read : Suffixes) :
    Production (Turn Suffixes) := do
  match ← kind with
  | .openParen =>
    if form.requiresName && read.suffixes.isEmpty && !(← asks atParameters) then
      let elements ← initializerArguments g
      return .done { read with elements := read.elements ++ elements, initialized := true }
    else
      let (elements, suffix) ← functionSuffix g
      return .again { read with
        elements := read.elements ++ elements, suffixes := read.suffixes ++ [suffix] }
  | .openBracket =>
    let (elements, suffix) ← arraySuffix g
    return .again { read with
      elements := read.elements ++ elements, suffixes := read.suffixes ++ [suffix] }
  | _ => return .done read

theorem suffixes_eq (g : Productions) (form : DeclaratorForm) :
    suffixes g form = repeatFrom ⟨[], [], false⟩ (suffixTurn g form) := rfl

theorem suffixTurn_runs (lasting : Lasting terms levels g twin)
    (ready : Ready terms levels spare state) (form : DeclaratorForm) (read : Suffixes) :
    Runs terms state (suffixTurn g form read) (suffixTurn twin form read) (Turn.price 0)
      anything := by
  refine .kind fun found front => ?_
  split
  · refine .asks fun parameters => ?_
    split
    · have pays : Pays terms state 1 := pays_of_kind front (by decide)
      exact .answering (initializerArguments_runs lasting ready pays) fun _ => rfl
    · exact .answering (functionSuffix_runs lasting ready) fun _ => rfl
  · have pays : Pays terms state 1 := pays_of_kind front (by decide)
    exact .answering (arraySuffix_runs lasting ready pays) fun _ => rfl
  · exact .pure rfl trivial

theorem suffixes_runs (lasting : Lasting terms levels g twin)
    (ready : Ready terms levels spare state) (form : DeclaratorForm) :
    Runs terms state (suffixes g form) (suffixes twin form) nothing anything := by
  rw [suffixes_eq, suffixes_eq]
  exact .repeating ready fun read _ ready => suffixTurn_runs lasting ready form read

/-! ## Initializers -/

/-- A turn of the loop that reads the items of an initializer in braces. -/
def initializerTurn (g : Productions) (items : List Tree.Plain) :
    Production (Turn (List Tree.Plain)) := do
  if ← sees .closeBrace then return .done items
  else
    let item ← if ← sees .openBrace then nested g.initializers else g.assignment
    match ← take? .comma with
    | some comma => return .again (items ++ [item, comma])
    | none => return .done (items ++ [item])

theorem initializerItems_eq (g : Productions) :
    initializerItems g = repeatFrom [] (initializerTurn g) := rfl

theorem initializerTurn_runs (lasting : Lasting terms levels g twin)
    (ready : Ready terms levels (spare + 1) state) (items : List Tree.Plain) :
    Runs terms state (initializerTurn g items) (initializerTurn twin items) (Turn.price 0)
      anything := by
  refine .sees (fun _ => .pure rfl trivial) fun _ => .ask (fun _ => rfl) ?_
  have braced (opens : (kindOf state.tokens == .openBrace) = true) :
      Runs terms state (nested g.initializers) (nested twin.initializers) nothing anything := by
    have pays : Pays terms state 1 := pays_of_kind (eq_of_beq opens) (by decide)
    exact .nested ready fun ready => lasting.initializers ready pays
  refine .bindIf ready braced (fun _ => lasting.assignment ready) fun _ _ ready => ?_
  exact .optional ready rfl (fun _ _ _ => .pure rfl trivial) (.pure rfl trivial)

theorem initializerItems_runs (lasting : Lasting terms levels g twin)
    (ready : Ready terms levels (spare + 1) state) :
    Runs terms state (initializerItems g) (initializerItems twin) nothing anything := by
  rw [initializerItems_eq, initializerItems_eq]
  exact .repeating ready fun items _ ready => initializerTurn_runs lasting ready items

theorem initializerList_runs (lasting : Lasting terms levels g twin)
    (ready : Ready terms levels spare state) (pays : Pays terms state paid) :
    Runs terms state (initializerList g) (initializerList twin) nothing anything := by
  refine .takeMore ready pays fun _ _ ready => ?_
  refine .behind ready (initializerItems_runs lasting ready) fun _ _ ready => ?_
  exact .answering (.expect ready rfl) fun _ => rfl

theorem bitField_runs (lasting : Lasting terms levels g twin)
    (ready : Ready terms levels spare state) (form : DeclaratorForm) (isFunction : Bool) :
    Runs terms state (bitField g form isFunction) (bitField twin form isFunction) nothing
      anything := by
  refine .ask (fun _ => rfl) ?_
  split
  · refine .behind ready .take fun _ _ ready => ?_
    exact .answering (conditionalExpression_runs lasting ready) fun _ => rfl
  · exact .pure rfl trivial

theorem initializer_runs (lasting : Lasting terms levels g twin)
    (ready : Ready terms levels spare state) (form : DeclaratorForm) :
    Runs terms state (initializer g form) (initializer twin form) nothing anything := by
  unfold initializer
  split
  · exact .pure rfl trivial
  · refine .optional ready rfl (fun _ state ready => .ask (fun _ => rfl) ?_) (.pure rfl trivial)
    have braced (opens : (kindOf state.tokens == .openBrace) = true) :
        Runs terms state g.initializers twin.initializers nothing anything := by
      have pays : Pays terms state 1 := pays_of_kind (eq_of_beq opens) (by decide)
      exact lasting.initializers ready pays
    exact .bindIf ready braced (fun _ => lasting.assignment ready) fun _ _ _ => .pure rfl trivial

theorem declarator_runs (lasting : Lasting terms levels g twin)
    (ready : Ready terms levels spare state) (base : Encoding) (form : DeclaratorForm) :
    Runs terms state (declarator g base form) (declarator twin base form) nothing anything := by
  refine .behind ready (pointers_runs ready base) fun _ _ ready => ?_
  refine .behind ready (declaredName_runs lasting ready form) fun _ _ ready => ?_
  refine .behind ready (suffixes_runs lasting ready form) fun behind _ ready => ?_
  refine .bindIf ready (fun _ => .pure rfl trivial) (fun _ => bitField_runs lasting ready form _) ?_
  refine fun _ _ ready => .bindIf ready (fun _ => .pure rfl trivial)
    (fun _ => initializer_runs lasting ready form) fun _ _ _ => .pure rfl trivial

end Grammar
end CppNames
