import CppNames.Proofs.Binding.Check
import CppNames.Proofs.Binding.Last

namespace CppNames
namespace Binding

/-!
# Scopes and declarations last

A new scope lies where it is entered.  What a node declares is bound in its scope under its name:
of all symbols, the node has declared this one only.
-/

open Table

variable {setting : Setting} {surroundings : Surroundings} {table : Table}
  {pending : Option ScopeId} {uses : Set Use}

/-! ## What a step is known to do -/

theorem Reads.both {α : Type} {step : Bind α} {one other : Surroundings → Table → α → Prop}
    (first : Reads step one) (second : Reads step other) :
    Reads step fun surroundings table value =>
      one surroundings table value ∧ other surroundings table value := by
  intro surroundings state
  have left := first surroundings state
  have right := second surroundings state
  cases result : step surroundings state with
  | error error after => rw [result] at left; exact left
  | ok value after =>
    rw [result] at left right
    exact ⟨left.1, left.2, right.2⟩

/-- A step of which more is known, once it has come to its end. -/
theorem Lasts.also {α : Type} {step checked : Bind α} {post : α → Table → Option ScopeId → Prop}
    {lasting : α → State → Prop} {fact : α → Table → Prop}
    (lasts : Lasts setting uses surroundings table pending step checked post lasting)
    (known : ∀ {early done : State} {value : α}, early.table = table →
      step surroundings early = .ok value done → fact value done.table) :
    Lasts setting uses surroundings table pending step checked
      (fun value after left => post value after left ∧ fact value after) lasting where
  keeps := by
    intro early sameTable sameHeader
    have ends := lasts.keeps early sameTable sameHeader
    cases result : step surroundings early with
    | error error after => rw [result] at ends; exact ends
    | ok value after =>
      rw [result] at ends
      rcases ends with ⟨ready, evolves, header, adds, holds⟩
      exact ⟨ready, evolves, header, adds, holds, known sameTable result⟩
  same := lasts.same
  lasts := lasts.lasts

/-- A step of which nothing is to last. -/
theorem Lasts.only {α : Type} {step : Bind α} {post : α → Table → Option ScopeId → Prop}
    (keeps : Keeps (setting.using uses) surroundings table pending step post) :
    Lasts setting uses surroundings table pending step step post fun _ _ => True :=
  .ofKeeps keeps fun _ _ => trivial

/-- What is left behind each of some steps, told from the table in which it begins. -/
theorem left_of_visits {items : List Node} {step : Node → Bind PUnit} (checked : Node → Bind PUnit)
    (left : Node → Table → State → Prop) (firstly : setting.first = true)
    (ready : Ready setting surroundings table pending)
    (once : Once setting table (Tree.parts items))
    (all : ∀ item ∈ items, ∀ {later next}, Ready setting surroundings later next →
      Once setting later item.preorder →
      Evolves (setting.using (usesOf (Tree.parts items))) table later →
      (next = none ∨ next = pending) →
      Lasts setting (usesOf item.preorder) surroundings later next (step item) (checked item)
        (fun _ _ _ => True) fun _ state => left item later state)
    {early done final : State} (sameTable : early.table = table) (sameHeader : early.header = pending)
    (runs : items.forM step surroundings early = .ok () done)
    (spares : Spares (usesOf (Tree.parts items)) done final) :
    ∀ index < items.length, ∀ item ∈ items[index]?,
      ∀ middle ∈ stateOf ((items.take index).forM step surroundings early),
        left item middle.table final := by
  induction items generalizing table pending early with
  | nil => exact fun index impossible => absurd impossible (Nat.not_lt_zero index)
  | cons first rest ih =>
    rw [Tree.parts_cons] at once all spares
    have splits := Splits.ofParts (.refl _) once.distinct
    rcases Binds.of_bind runs with ⟨_, middle, runsFirst, runsRest⟩
    have own := all first (List.mem_cons_self ..) ready
      (once.sublist (List.sublist_append_left ..)) (.refl table) (.inr rfl)
    rcases own.keeps.ends sameTable sameHeader runsFirst with ⟨readyRest, evolves, header, _⟩
    have behind := (once.sublist (List.sublist_append_right ..)).behind splits.apart evolves
    have others : ∀ item ∈ rest, ∀ {later next}, Ready setting surroundings later next →
        Once setting later item.preorder →
        Evolves (setting.using (usesOf (Tree.parts rest))) middle.table later →
        (next = none ∨ next = middle.header) →
        Lasts setting (usesOf item.preorder) surroundings later next (step item) (checked item)
          (fun _ _ _ => True) fun _ state => left item later state := by
      intro item member later next readyLater onceLater further headerLater
      refine all item (List.mem_cons_of_mem _ member) readyLater onceLater ?_ ?_
      · exact (evolves.widen (narrows_using (.refl setting) splits.inFront)).trans
          (further.widen (narrows_using (.refl setting) splits.inBack))
      · exact headerLater.elim .inl fun same => same ▸ header
    have tail := lasts_visits firstly readyRest.ofUsing behind
      fun item member _ _ ready once further header =>
        (others item member ready once further header).weaken (fun _ _ _ holds => holds)
          fun _ _ _ => trivial
    rcases tail.keeps.ends rfl rfl runsRest with ⟨_, further, _, adds, _⟩
    intro index inside item found last ends
    cases index with
    | zero =>
      cases found
      cases ends
      rw [sameTable]
      exact own.lasts sameTable sameHeader runsFirst
        ((spares_of_ends firstly further adds splits.apart).trans (spares.mono splits.inFront))
    | succ index =>
      have runsTaken : ((first :: rest).take (index + 1)).forM step surroundings early =
          (rest.take index).forM step surroundings middle := Binds.bind_of_ok runsFirst
      rw [runsTaken] at ends
      exact ih readyRest.ofUsing behind others rfl rfl runsRest (spares.mono splits.inBack) index
        (Nat.lt_of_succ_lt_succ inside) item found last ends

/-! ## Scopes -/

/-- The scope of a node that has none yet lies where it is entered. -/
theorem around_of_scopeFor {node : Tree.NodeId} {outer scope : ScopeId} {region : Region}
    {state behind : State} (inside : state.table.HasScope outer)
    (unmet : state.table.scopeOfNode? node = none)
    (runs : scopeFor node outer region surroundings state = .ok scope behind) :
    behind.table.Around scope outer ∧
      ∀ id around, state.table.Around id around → behind.table.Around id around := by
  unfold scopeFor at runs
  rw [get_bind_apply, unmet] at runs
  dsimp only at runs
  rw [createScope_runs inside] at runs
  cases runs
  have around := around_createScope region inside node
  refine ⟨(around _ _).mpr (.inl ⟨rfl, rfl⟩), fun id further step => ?_⟩
  exact (around _ _).mpr (.inr ⟨ne_nextScope step.hasScope, step⟩)

theorem lasts_scopeFor (ready : Ready setting surroundings table pending) {region : Region}
    {outer : ScopeId} {node : Tree.NodeId} (inside : table.HasScope outer)
    (fresh : IsFresh table region) (bears : (setting.content node).Bears node region.shape)
    (unmet : table.scopeOfNode? node = none) (outside : Outside setting pending outer)
    (houses : region.shape = .namespaceBody ∨ region.shape = .classBody →
      Houses setting table outer node) :
    Lasts setting {.note node} surroundings table pending (scopeFor node outer region)
      (scopeFor node outer region)
      (fun id after left => (pending = left ∧ HasNoted setting after node id ∧
        (¬ table.HasScope id ∧ Childless after id ∧
          ∀ declaration, region.shape = .header declaration → Houses setting table outer node →
            setting.first = true → after.LeadsOut setting.inner id)) ∧
        after.Around id outer ∧ (∀ one other, table.Around one other → after.Around one other) ∧
          after.scopeOfNode? node = some id)
      fun _ _ => True := by
  refine .also (.only ((keeps_scopeFor (ready.using _) inside fresh bears
    (Set.mem_singleton (Use.note node)) outside houses).weaken ?_)) ?_
  · exact fun _ _ _ holds => ⟨holds.1, holds.2.1, holds.2.2 unmet⟩
  · rintro early done value rfl runs
    rcases around_of_scopeFor inside unmet runs with ⟨around, stays⟩
    exact ⟨around, stays, (noted_of_scopeFor inside runs).1⟩

/-! ## Declarations -/

/-- An attempt to declare a symbol. -/
theorem lasts_attempt (ready : Ready setting surroundings table pending) {name type : Encoding}
    {kind : SymbolKind} {scope : ScopeId} {node : Tree.NodeId} {span place : Option Span}
    {text : Bind String} (unbound : Unbound {.declare node} table)
    (aliased : ∀ target, kind = .typedefName (some target) → table.HasSymbol target)
    (spells : Looks text) :
    Lasts setting {.declare node} surroundings table pending
      (attempt scope (.ofDeclaration name kind type scope node span) text place)
      (attempt scope (.ofDeclaration name kind type scope node span) text place)
      (fun declared after left => pending = left ∧
        table.Declares scope (.ofDeclaration name kind type scope node span) after declared)
      fun _ state => DeclaredIn state.table scope node name := by
  have used := Set.mem_singleton (Use.declare node)
  have unmet := unbound.declared node used
  refine .ofKeeps (keeps_attempt (ready.using _) used aliased spells) ?_
  rintro declared done final ⟨_, declares⟩ spares id member
  have member := spares.declared node used id member
  cases declared with
  | error refusal =>
    generalize done.table = after at declares member
    cases declares
    exact absurd member (unmet id)
  | ok made =>
    rw [Declares.declarers_eq (by rfl) declares] at member
    have new := (List.mem_append.mp member).resolve_left (unmet id)
    split at new
    · next same =>
      subst same
      exact (Declares.shows declares).grows spares.grows
    · exact absurd new List.not_mem_nil

theorem lasts_declare (firstly : setting.first = true)
    (ready : Ready setting surroundings table pending) {name type : Encoding} {kind : SymbolKind}
    {scope : ScopeId} {node : Tree.NodeId} {span : Option Span}
    (unbound : Unbound {.declare node} table)
    (aliased : ∀ target, kind = .typedefName (some target) → table.HasSymbol target) :
    Lasts setting {.declare node} surroundings table pending
      (declare scope (.ofDeclaration name kind type scope node span))
      (declare scope (.ofDeclaration name kind type scope node span))
      (fun id after left => pending = left ∧ Answers kind.family.body? after id)
      fun _ state => DeclaredIn state.table scope node name := by
  rw [declare_eq_attempt]
  refine .behind firstly ready (looks_answer _) fun text _ => ?_
  refine .bind firstly (.only _) (lasts_attempt ready unbound aliased (looks_pure text)) ?_
  rintro declared after left ready _ _ ⟨rfl, done⟩
  cases declared with
  | error refusal => exact .pure ready ⟨rfl, .none⟩ fun _ _ holds => holds
  | ok id =>
    refine .pure ready ⟨rfl, ?_⟩ fun _ _ holds => holds
    rintro known same shape body
    cases same
    exact Declares.mayHave done body

theorem lasts_declareQuietly (firstly : setting.first = true)
    (ready : Ready setting surroundings table pending)
    {name type : Encoding} {kind : SymbolKind} {scope : ScopeId} {node : Tree.NodeId}
    {span : Option Span} (unbound : Unbound {.declare node} table)
    (aliased : ∀ target, kind = .typedefName (some target) → table.HasSymbol target) :
    Lasts setting {.declare node} surroundings table pending
      (declareQuietly scope (.ofDeclaration name kind type scope node span))
      (declareQuietly scope (.ofDeclaration name kind type scope node span))
      (fun _ _ left => pending = left) fun _ state => DeclaredIn state.table scope node name :=
  .discard (lasts_declare firstly ready unbound aliased) fun _ _ _ holds => holds.1

/-! ## Qualified names -/

/-- A qualifier leads to the scope that it denotes. -/
theorem reads_declarationTarget_denoted (name : Encoding) (span : Option Span) :
    Reads (declarationTarget name span) fun surroundings table target =>
      ∀ scope ∈ denoted? table surroundings.current name, ∃ last, target = some (scope, last) := by
  refine (reads_answer _).bind fun components => ?_
  cases ends : components.getLast? with
  | none =>
    refine .pure fun surroundings table named scope found => ?_
    rw [List.getLast?_eq_none_iff.mp ends] at named
    simp [denoted?, named] at found
  | some last =>
    refine reads_current.bind fun current => (reads_ask _).bind fun found => ?_
    have denotes : ∀ {surroundings : Surroundings} {table : Table}, name.components = .ok components →
        current = surroundings.current →
        table.lookupScope (.qualified components.dropLast) current = .ok found → ∀ scope,
        scope ∈ denoted? table surroundings.current name → found = .ok (some scope) := by
      intro surroundings table named here asked scope member
      subst here
      unfold denoted? at member
      rw [named] at member
      simp only [asked] at member
      split at member
      · cases member
      · split at member
        · next same => cases same; exact congrArg Except.ok member
        · cases member
    cases found with
    | error error =>
      refine .after (looks_reportLookup _ _) fun _ => .pure ?_
      intro surroundings table asked here named scope member
      exact absurd (denotes named here asked scope member) nofun
    | ok target =>
      cases target with
      | none =>
        refine .pure fun surroundings table asked here named scope member => ?_
        exact absurd (denotes named here asked scope member) nofun
      | some target =>
        refine .pure fun surroundings table asked here named scope member => ⟨last, ?_⟩
        have same := denotes named here asked scope member
        cases same
        rfl

/-- A class with a qualified name belongs to the scope that the qualifier denotes. -/
theorem scope_of_declareClass {specifier : Node} {name : Encoding} {kind : SymbolKind}
    {span : Option Span} {state behind : State} {declared : DeclaredClass}
    (qualified : name.isQualified = true)
    (runs : declareClass specifier name kind span surroundings state = .ok declared behind) :
    ∀ scope ∈ denoted? state.table surroundings.current name, declared.scope = scope := by
  intro scope member
  rcases Binds.of_bind runs with ⟨here, middle, got, runs⟩
  cases got
  rw [if_pos qualified] at runs
  rcases Binds.of_bind runs with ⟨target, middle, aimed, runs⟩
  have leads := reads_declarationTarget_denoted name span surroundings state
  rw [aimed] at leads
  rcases leads.2 scope member with ⟨key, rfl⟩
  rcases Binds.of_bind runs with ⟨answer, between, performed, runs⟩
  cases answer with
  | ok id =>
    cases runs
    rfl
  | error refusal =>
    rcases Binds.of_bind runs with ⟨text, spelled, _, runs⟩
    rcases Binds.of_bind runs with ⟨_, reported, _, runs⟩
    cases runs
    rfl

/-- What a named declarator declares.  Where its name has no qualifier, it is bound here. -/
theorem lasts_declareNamed (firstly : setting.first = true)
    (ready : Ready setting surroundings table pending) {name type : Encoding} {kind : SymbolKind}
    {node : Tree.NodeId} {span : Option Span} (unbound : Unbound {.declare node} table)
    (plain : ∀ target, kind ≠ .typedefName target) :
    Lasts setting {.declare node} surroundings table pending
      (declareNamed name kind type node span) (declareNamed name kind type node span)
      (fun answer after left => pending = left ∧ Answers kind.family.body? after answer.1 ∧
        after.Open answer.2 ∧ (name.isQualified = true →
          ∀ scope ∈ denoted? table surroundings.current name, answer.2 = scope))
      fun _ state => name.isQualified = false →
        DeclaredIn state.table surroundings.current node name := by
  unfold declareNamed
  refine .behind firstly ready reads_current fun scope here => ?_
  subst here
  split
  · next qualified =>
    have elsewhere : ¬ name.isQualified = false := by simp [qualified]
    refine .behind firstly ready ((reads_declarationTarget name span).both
      (reads_declarationTarget_denoted name span)) fun target denotes => ?_
    cases target with
    | none =>
      refine .pure ready ⟨rfl, .none, ready.current, fun _ scope member => ?_⟩
        fun _ _ impossible => absurd impossible elsewhere
      exact absurd (denotes.2 scope member) nofun
    | some found =>
      have isOpen := (denotes.1 ready.formed found rfl).isOpen
      refine .bind firstly (.only _) (.only (keeps_declareMember (ready.using _)
        (Set.mem_singleton (Use.declare node)) plain)) ?_
      rintro id after left ready evolves _ ⟨rfl, answers⟩
      refine .pure ready ⟨rfl, answers, evolves.grows.isOpen isOpen, fun _ scope member => ?_⟩
        fun _ _ _ impossible => absurd impossible elsewhere
      rcases denotes.2 scope member with ⟨last, same⟩
      cases same
      rfl
  · next unqualified =>
    refine .bind firstly (.only _) (lasts_declare firstly ready unbound fun target is =>
      absurd is (plain _)) ?_
    rintro id after left ready _ _ ⟨rfl, answers⟩
    refine .pure ready ⟨rfl, answers, ready.current, fun qualified => absurd qualified unqualified⟩
      fun _ _ declared _ => declared

end Binding
end CppNames
