import CppNames.Grammar.Specifier
import CppNames.Proofs.Running.Declarator

namespace CppNames
namespace Grammar

/-!
# How specifiers and declaration lists run

A turn of a list of declarations passes a token also where the declaration stops at once: the
token in front closes nothing, so parsing resumes behind it.  Specifiers are read one in each
turn, and the `long`s among them are counted together with those that are still ahead.
-/

variable {terms : Terms} {levels spare paid : Nat} {state after : State} {g twin : Productions}

/-! ## Declaration lists -/

/-- A turn of the loop that reads the declarations of a list. -/
def declarationTurn (g : Productions) (place : Place) (declarations : List Tree.Plain) :
    Production (Turn (List Tree.Plain)) := do
  match ← kind with
  | .endOfFile => return .done declarations
  | .closeBrace =>
    if place == .file then
      report .declarationExpected []
      modify State.behindNext
      return .again declarations
    else return .done declarations
  | _ => return .again (declarations ++ (← recovering (g.declaration place)))

theorem declarationList_eq (g : Productions) (place : Place) :
    declarationList g place = repeatFrom [] (declarationTurn g place) := rfl

theorem declarationTurn_runs (lasting : Lasting terms levels g twin)
    (ready : Ready terms levels (spare + 2) state) (place : Place)
    (declarations : List Tree.Plain) :
    Runs terms state (declarationTurn g place declarations)
      (declarationTurn twin place declarations) (Turn.price 0) anything := by
  refine .kind fun found front => ?_
  split
  · exact .pure rfl trivial
  · split
    · refine .bind ready .report fun _ after _ ready same => ?_
      have more : kindOf after.tokens ≠ .endOfFile := by
        rw [same, front]
        decide
      exact .answering (.passOver more) fun _ => rfl
    · exact .pure rfl trivial
  · next more opened =>
    refine .answering (.recovering ?_ ?_ (lasting.declaration place ready)) fun _ => rfl
    · rw [front]
      exact more
    · rw [front]
      exact opened

theorem declarationList_runs (lasting : Lasting terms levels g twin)
    (ready : Ready terms levels (spare + 2) state) (place : Place) :
    Runs terms state (declarationList g place) (declarationList twin place) nothing anything := by
  rw [declarationList_eq, declarationList_eq]
  exact .repeating ready fun declarations _ ready =>
    declarationTurn_runs lasting ready place declarations

theorem braced_runs (lasting : Lasting terms levels g twin)
    (ready : Ready terms levels (spare + 1) state) (construct : Construct) (place : Place) :
    Runs terms state (braced g construct place) (braced twin construct place) (fun _ => 1)
      anything := by
  refine .behind ready (.expect ready rfl) fun _ _ ready => ?_
  refine .behind ready (declarationList_runs lasting ready place) fun _ _ ready => ?_
  exact .answering (.any (.expect ready rfl)) fun _ => rfl

/-! ## Classes and enumerations -/

theorem takeBases_runs (ready : Ready terms levels spare state) :
    Runs terms state (takeRun isBaseSpecifier) (takeRun isBaseSpecifier) nothing anything :=
  (Runs.takeRun ready rfl).any

theorem baseClause_runs (lasting : Lasting terms levels g twin)
    (ready : Ready terms levels spare state) :
    Runs terms state (baseClause g) (baseClause twin) nothing anything := by
  refine .behind ready .take fun _ _ ready => ?_
  refine .answering (.commaSeparated ready fun _ ready => ?_) fun _ => rfl
  refine .behind ready (takeBases_runs ready) fun _ _ ready => ?_
  exact .answering (name_runs lasting ready true).any fun _ => rfl

theorem className_runs (lasting : Lasting terms levels g twin)
    (ready : Ready terms levels spare state) (headed : Bool) :
    Runs terms state (className g headed) (className twin headed) nothing anything := by
  refine .kind fun found _ => ?_
  split
  · refine .behind ready (name_runs lasting ready true).any fun named _ ready => ?_
    split
    · refine .behind ready .learnType fun _ _ ready => ?_
      split
      · exact .answering .learnTemplate fun _ => rfl
      · exact .pure rfl trivial
    · exact .pure rfl trivial
  · exact .answering .anonymousName fun _ => rfl

theorem takeHeader_runs : Runs terms state takeHeader takeHeader nothing anything :=
  ⟨rfl, ⟨⟨⟨rfl, rfl, rfl⟩, ⟨[], .refl _⟩, rfl, fun set => nomatch set⟩, rfl⟩, Nat.le_refl _,
    trivial⟩

theorem classSpecifier_runs (lasting : Lasting terms levels g twin)
    (ready : Ready terms levels spare state) (pays : Pays terms state paid) :
    Runs terms state (classSpecifier g) (classSpecifier twin) (fun _ => paid) anything := by
  refine .takeFront ready pays fun _ _ ready => ?_
  refine .behind ready takeHeader_runs fun headed _ ready => ?_
  refine .behind ready (className_runs lasting ready headed) fun _ _ ready => .ask (fun _ => rfl) ?_
  refine .bindIf ready (fun _ => baseClause_runs lasting ready) (fun _ => .pure rfl trivial) ?_
  refine fun _ _ ready => .ask (fun _ => rfl) <| .bindIf ready
    (fun _ => (braced_runs lasting ready .classBody .classBody).any)
    (fun _ => .pure rfl trivial) fun _ _ _ => .pure rfl trivial

theorem enumerator_runs (lasting : Lasting terms levels g twin)
    (ready : Ready terms levels spare state) :
    Runs terms state (enumerator g) (enumerator twin) (fun _ => 1) anything := by
  refine .behind ready (.expect ready rfl) fun _ _ ready => ?_
  refine .optional ready rfl (fun _ _ ready => ?_) (.pure rfl trivial)
  exact .answering (conditionalExpression_runs lasting ready) fun _ => rfl

/-- A turn of the loop that reads the enumerators of an enumeration. -/
def enumeratorTurn (g : Productions) (items : List Tree.Plain) :
    Production (Turn (List Tree.Plain)) := do
  if ← sees .closeBrace then return .done items
  else
    let item ← enumerator g
    match ← take? .comma with
    | some comma => return .again (items ++ [item, comma])
    | none => return .done (items ++ [item])

theorem enumerators_eq (g : Productions) :
    enumerators g = repeatFrom [] (enumeratorTurn g) := rfl

theorem enumeratorTurn_runs (lasting : Lasting terms levels g twin)
    (ready : Ready terms levels spare state) (items : List Tree.Plain) :
    Runs terms state (enumeratorTurn g items) (enumeratorTurn twin items) (Turn.price 0)
      anything := by
  refine .sees (fun _ => .pure rfl trivial) fun _ => ?_
  refine .behind ready (enumerator_runs lasting ready) fun _ _ ready => ?_
  exact .optional ready rfl (fun _ _ _ => .pure rfl trivial) (.pure rfl trivial)

theorem enumerators_runs (lasting : Lasting terms levels g twin)
    (ready : Ready terms levels spare state) :
    Runs terms state (enumerators g) (enumerators twin) nothing anything := by
  rw [enumerators_eq, enumerators_eq]
  exact .repeating ready fun items _ ready => enumeratorTurn_runs lasting ready items

theorem enumBody_runs (lasting : Lasting terms levels g twin)
    (ready : Ready terms levels spare state) :
    Runs terms state (enumBody g) (enumBody twin) nothing anything := by
  refine .optional ready rfl (fun _ _ ready => ?_) (.pure rfl trivial)
  refine .behind ready (enumerators_runs lasting ready) fun _ _ ready => ?_
  exact .answering (.expect ready rfl) fun _ => rfl

theorem typeNameEncoding_runs (named : Option Tree.Plain) :
    Runs terms state (typeNameEncoding named) (typeNameEncoding named) nothing anything := by
  cases named with
  | none => exact .anonymousName
  | some identifier => exact .answering .learnType fun _ => rfl

theorem enumSpecifier_runs (lasting : Lasting terms levels g twin)
    (ready : Ready terms levels spare state) (pays : Pays terms state paid) :
    Runs terms state (enumSpecifier g) (enumSpecifier twin) (fun _ => paid) anything := by
  refine .takeFront ready pays fun _ _ ready => .behind ready .take? fun named _ ready => ?_
  refine .behind ready (typeNameEncoding_runs named) fun _ _ ready => ?_
  exact .answering (enumBody_runs lasting ready) fun _ => rfl

/-! ## Specifiers -/

/-- The `long`s that were read and those that are still ahead can be counted together. -/
def Countable (terms : Terms) (read : SpecifierWords) (state : State) : Prop :=
  terms.may .overflow ∨ read.builtin.longs + longsIn state.tokens < capacity 8

/-- No other word than a builtin one changes how many `long`s were read. -/
theorem Countable.onward {read more : SpecifierWords} (countable : Countable terms read state)
    (onward : Onward state after) (same : more.builtin = read.builtin) :
    Countable terms more after := by
  refine countable.imp_right fun few => ?_
  have fewer := onward.longsIn_le
  rw [same]
  omega

/-- A builtin word is counted before it is taken. -/
theorem builtinWord_runs (ready : Ready terms levels spare state) {read : SpecifierWords}
    (countable : Countable terms read state) (more : kindOf state.tokens ≠ .endOfFile)
    {next : BuiltinWords → Tree.Plain → SpecifierWords}
    (counts : ∀ builtin word, (next builtin word).builtin = builtin) :
    Runs terms state
      (counting (read.builtin.add? (kindOf state.tokens)) >>= fun builtin =>
        take >>= fun word => pure (Turn.again (next builtin word)))
      (counting (read.builtin.add? (kindOf state.tokens)) >>= fun builtin =>
        take >>= fun word => pure (Turn.again (next builtin word)))
      (Turn.price 0) (Turned (Countable terms) anything) := by
  have counted := count_add_longsIn more
  have adds (few : read.builtin.longs + longsIn state.tokens < capacity 8) :=
    @exists_add? read.builtin (kindOf state.tokens) (by omega)
  refine .counting (fun tooMany => ?_) fun builtin added => ?_
  · refine countable.resolve_right fun few => ?_
    rcases adds few with ⟨sum, added, _⟩
    rw [added] at tooMany
    cases tooMany
  · refine .bind ready (.takeSome more) fun word _ _ _ taken => .pure rfl ?_
    rcases taken with ⟨_, rfl⟩
    refine countable.imp_right fun few => ?_
    rcases adds few with ⟨sum, addedSum, longs⟩
    rw [added] at addedSum
    cases addedSum
    rw [counts, longs]
    omega

/-- Every specifier but a builtin word leaves the words that were counted as they were. -/
theorem specifierTurn_runs {α : Type} {production productionTwin : Production α}
    {post : α → State → Prop} {read : SpecifierWords} (next : α → SpecifierWords)
    (ready : Ready terms levels spare state) (countable : Countable terms read state)
    (runs : Runs terms state production productionTwin (fun _ => 1) post)
    (same : ∀ value, (next value).builtin = read.builtin) :
    Runs terms state (production >>= fun value => pure (Turn.again (next value)))
      (productionTwin >>= fun value => pure (Turn.again (next value))) (Turn.price 0)
      (Turned (Countable terms) anything) :=
  .bind ready runs fun value _ onward _ _ => .pure rfl (countable.onward onward (same value))

theorem specifier_runs (lasting : Lasting terms levels g twin)
    (ready : Ready terms levels spare state) (place : Place) {read : SpecifierWords}
    (countable : Countable terms read state) :
    Runs terms state (specifier g place read) (specifier twin place read) (Turn.price 0)
      (Turned (Countable terms) anything) := by
  refine .kind fun found front => ?_
  by_cases ended : found = .endOfFile
  · subst ended
    change Runs terms state (if read.hasType then pure (Turn.done read) else pure (Turn.done read))
      (if read.hasType then pure (Turn.done read) else pure (Turn.done read)) _ _
    rw [ite_self]
    exact .pure rfl trivial
  have more : kindOf state.tokens ≠ .endOfFile := front ▸ ended
  have pays : Pays terms state 1 := pays_of_kind front ended
  have word := specifierTurn_runs read.withWord ready countable (.takeSome more) fun _ => rfl
  have named := specifierTurn_runs read.withNamed ready countable (name_runs lasting ready true)
    fun _ => rfl
  have declared := specifierTurn_runs read.withNamed ready countable
    (classSpecifier_runs lasting ready pays) fun _ => rfl
  split
  · exact specifierTurn_runs _ ready countable (.takeSome more) fun _ => rfl
  · split
    · exact word
    · split
      · subst front
        exact builtinWord_runs ready countable more fun _ _ => rfl
      · split
        · exact .pure rfl trivial
        · split
          · exact declared
          · exact declared
          · exact declared
          · exact specifierTurn_runs _ ready countable (enumSpecifier_runs lasting ready pays) fun _ => rfl
          · refine .bind ready (.takeSome more) fun _ _ onward ready _ => ?_
            refine .bind ready (name_runs lasting ready true).any fun _ _ onwardName _ _ => ?_
            exact .pure rfl (countable.onward (onward.trans onwardName) rfl)
          · refine .asks fun isMember => ?_
            split
            · exact .pure rfl trivial
            · exact named
          · refine .asks fun isMember => ?_
            split
            · exact .pure rfl trivial
            · exact named
          · exact .pure rfl trivial

theorem specifiers_runs (lasting : Lasting terms levels g twin)
    (ready : Ready terms levels spare state) (place : Place) :
    Runs terms state (specifiers g place) (specifiers twin place) nothing anything := by
  have begins : Countable terms {} state := ready.longs.imp_right fun few => by
    change 0 + longsIn state.tokens < _
    omega
  have loop := Runs.repeatFrom ready begins fun read _ ready countable =>
    specifier_runs lasting ready place countable
  exact .behind ready loop fun _ _ _ => .pure rfl trivial

/-! ## Types -/

theorem requiredType_runs (lasting : Lasting terms levels g twin)
    (ready : Ready terms levels spare state) (place : Place) :
    Runs terms state (requiredType g place) (requiredType twin place) nothing anything := by
  refine .behind ready (specifiers_runs lasting ready place) fun read _ _ => ?_
  split
  · exact .fail
  · exact .pure rfl trivial

theorem parameterDeclaration_runs (lasting : Lasting terms levels g twin)
    (ready : Ready terms levels spare state) :
    Runs terms state (parameterDeclaration g) (parameterDeclaration twin) nothing anything := by
  refine .behind ready (requiredType_runs lasting ready .parameter) fun _ _ ready => ?_
  exact .answering (declarator_runs lasting ready _ .parameter) fun _ => rfl

theorem typeId_runs (lasting : Lasting terms levels g twin)
    (ready : Ready terms levels spare state) :
    Runs terms state (typeId g) (typeId twin) nothing anything := by
  refine .behind ready (requiredType_runs lasting ready .typeId) fun _ _ ready => ?_
  refine .kind fun found _ => ?_
  split
  · exact .answering (declarator_runs lasting ready _ .abstract) fun _ => rfl
  · exact .pure rfl trivial

end Grammar
end CppNames
