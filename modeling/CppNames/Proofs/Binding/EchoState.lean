import CppNames.Proofs.Binding.Echo

namespace CppNames
namespace Binding

/-!
# What binding does again

In the second pass a node enters the scope that was noted for it.  Wherever it declared something,
its symbol stands in the way and is reported.  A node that was refused in the first pass may be
refused again, or declare something now.
-/

open Table

variable {plan : Rebinding} {surroundings : Surroundings} {table after late : Table}
  {pending : Option ScopeId} {known : Table → Prop}

/-! ## Headers and scopes -/

theorem echoes_takeHeader (ready : Ready (plan.setting ∅) surroundings table pending) :
    Echoes plan ∅ surroundings table pending known takeHeader takeHeader
      (fun header after left => header = pending ∧ table = after ∧ left = none)
      fun header other after => other = header ∧ known after where
  keeps := keeps_takeHeader ready
  echo := by
    rintro early after header rfl rfl runs unmet late later other there header knows follows again
    cases runs
    cases again
    exact ⟨there.formed.taken.again there.current, rfl,
      .still rfl rfl rfl (List.prefix_refl _) fun _ _ => id, header, knows⟩

/-- The scope that a node has is entered again, wherever the second pass would make one. -/
theorem echoes_scopeFor (ready : Ready (plan.setting ∅) surroundings table pending)
    {region regionAgain : Region} {outer outerAgain : ScopeId} {node : Tree.NodeId}
    (inside : table.HasScope outer) (fresh : IsFresh table region)
    (bears : (plan.content node).Bears node region.shape) :
    Echoes plan {.note node} surroundings table pending known (scopeFor node outer region)
      (scopeFor node outerAgain regionAgain)
      (fun id after left => pending = left ∧ HasNoted (plan.setting ∅) after node id)
      fun id other after => other = id ∧ known after where
  keeps := (keeps_scopeFor (ready.allowing _) inside fresh bears
    (Set.mem_singleton (Use.note node)) nofun fun _ => nofun).weaken fun _ _ _ holds => ⟨holds.1, holds.2.1⟩
  echo := by
    intro early after id sameTable sameHeader runs unmet late later other there header knows
      follows runsAgain
    have ran := (keeps_scopeFor (ready.allowing _) inside fresh bears
      (Set.mem_singleton (Use.note node)) nofun fun _ => nofun).ends sameTable sameHeader runs
    rcases noted_of_scopeFor (sameTable ▸ inside) runs with ⟨noted, unnoted⟩
    rw [← follows.notes node rfl] at noted
    rw [scopeFor_of_noted noted] at runsAgain
    cases runsAgain
    refine ⟨header ▸ there, header.trans ran.2.2.2.2.1,
      .still unnoted rfl rfl (List.prefix_refl _) ?_, rfl, knows⟩
    intro label id declared
    rw [sameTable]
    exact (ran.2.1.mem_declarers declared).resolve_right nofun

/-- The second pass notes a scope in the table that is noted there already. -/
theorem echoes_setNodeScope (ready : Ready (plan.setting ∅) surroundings table pending)
    {node : Tree.NodeId} {scope : ScopeId} {shape : Region.Shape} (has : table.HasShape scope shape)
    (bears : (plan.content node).Bears node shape) :
    Echoes plan {.note node} surroundings table pending known
      (change (·.setNodeScope node scope)) (change (·.setNodeScope node scope))
      (fun _ after left => table.setNodeScope node scope = after ∧ pending = left)
      fun _ _ _ => True where
  keeps := keeps_change (ready.allowing _)
    ((ready.allowing _).formed.setNodeScope has bears (.inl (Set.mem_singleton (Use.note node))))
  echo := by
    rintro early after _ rfl rfl runs unmet late later _ there header knows follows runsAgain
    cases runs
    cases runsAgain
    have noted : late.table.scopeOfNode? node = some scope := by
      rw [follows.notes node rfl, scopeOfNode?_setNodeScope, if_pos rfl]
    have grows := (early.table.grows_setNodeScope node scope).trans follows.grows
    have does : ∀ uses, Formed (plan.setting uses) early.header (late.table.setNodeScope node scope) ∧
        Evolves (plan.setting uses) late.table (late.table.setNodeScope node scope) := fun uses =>
      (there.allowing uses).formed.setNodeScope (grows.hasShape has) bears (.inr noted)
    refine ⟨there.grows (header ▸ (does ∅).1) (does ∅).2.grows, header,
      ⟨(does _).2, ⟨[], rfl, rfl⟩, List.prefix_refl _, ?_⟩, trivial⟩
    exact fun _ label _ id declared => .inl declared

/-! ## Declarations -/

/-- A node that declared a symbol in the first pass is refused in the second, and its symbol is in
the way. -/
theorem Follows.refuses {uses : Set Use} {scope : ScopeId} {symbol again : Symbol} {id : SymbolId}
    {later : Table} {answer : Except Refusal SymbolId} (single : symbol.declarations = [symbol.node])
    (unmet : Unmet uses table) (used : .declare symbol.node ∈ uses)
    (done : table.Declares scope symbol after (.ok id)) (follows : Follows uses after late)
    (name : again.name = symbol.name) (node : again.node = symbol.node)
    (declares : late.declare scope again = .ok (later, answer)) :
    later = late ∧ answer = .error ⟨id, false⟩ := by
  have alone : ∀ other, symbol.node ∈ declarers late other → other = id := by
    intro other member
    have early := follows.declared symbol.node used other member
    rw [Declares.declarers_eq single done] at early
    rcases List.mem_append.mp early with old | new
    · exact absurd old (unmet symbol.node used other)
    · by_contra apart
      rw [if_neg (Ne.symm apart)] at new
      exact List.not_mem_nil new
  have own : symbol.node ∈ declarers late id := by
    refine mem_declarers_of_grows ?_ follows.grows
    rw [Declares.declarers_eq single done, if_pos rfl]
    exact List.mem_append_right _ (List.mem_singleton_self _)
  rcases (Declares.shows done).grows follows.grows with ⟨found, read, member⟩
  rcases Outcome.of_bind declares with ⟨verdict, given, becomes⟩
  rcases Outcome.of_bind given with ⟨same, readSame, given⟩
  rw [read] at readSame
  cases readSame
  rw [name, node] at given
  rcases Outcome.of_bind given with ⟨earlier, searched, given⟩
  cases earlier with
  | none => exact absurd own (not_mem_declarers_of_declaredBy? searched member)
  | some previous =>
    rw [alone previous (mem_declarers_of_declaredBy? searched)] at given
    cases given
    cases becomes
    exact ⟨rfl, rfl⟩

/-- What a node declared in the first pass, it is refused and reported in the second. -/
theorem echoes_attempt (ready : Ready (plan.setting ∅) surroundings table pending)
    {name type : Encoding} {kind kindAgain : SymbolKind} {scope : ScopeId} {node : Tree.NodeId}
    {span place : Option Span} {text : Bind String}
    (aliased : ∀ target, kind = .typedefName (some target) → table.HasSymbol target)
    (aliasedAgain : ∀ late, known late → ∀ target, kindAgain = .typedefName (some target) →
      late.HasSymbol target) (spells : Looks text) :
    Echoes plan {.declare node} surroundings table pending known
      (attempt scope (.ofDeclaration name kind type scope node span) text place)
      (attempt scope (.ofDeclaration name kindAgain type scope node span) text place)
      (fun declared after left => pending = left ∧
        table.Declares scope (.ofDeclaration name kind type scope node span) after declared)
      fun declared other after =>
        (∃ before, known before ∧ before.Declares scope
          (.ofDeclaration name kindAgain type scope node span) after other) ∧
        ∀ id, declared = .ok id → other = .error ⟨id, false⟩ where
  keeps := keeps_attempt (ready.allowing _) (Set.mem_singleton (Use.declare node)) aliased spells
  echo := by
    intro early after declared sameTable sameHeader runs unmet late later other there header knows
      follows runsAgain
    have used := Set.mem_singleton (Use.declare node)
    have keeps : Keeps (plan.setting {.declare node}) surroundings table pending
        (attempt scope (.ofDeclaration name kind type scope node span) text place) _ :=
      keeps_attempt (ready.allowing _) used aliased spells
    have keepsAgain : Keeps (plan.setting {.declare node}) surroundings late.table pending
        (attempt scope (.ofDeclaration name kindAgain type scope node span) text place) _ :=
      keeps_attempt (there.allowing _) used (aliasedAgain late.table knows) spells
    rcases keeps.ends sameTable sameHeader runs with ⟨_, _, _, adds, left, done⟩
    rcases keepsAgain.ends rfl header runsAgain with
      ⟨thereAgain, evolvesAgain, _, addsAgain, leftAgain, doneAgain⟩
    rcases ok_of_attempt spells runs with ⟨_, _, _, loud⟩
    rcases ok_of_attempt spells runsAgain with ⟨declares, _, _, remarks⟩
    have nothing : ¬ (plan.setting {.declare node}).noted.Nonempty := by
      rintro ⟨label, impossible⟩
      cases impossible
    have annotated : ∃ added, after.annotations = added ++ early.annotations ∧
        later.annotations = added ++ late.annotations :=
      ⟨[], adds.same nothing, addsAgain.same nothing⟩
    refine ⟨thereAgain.allowing _, leftAgain.symm.trans left, ?_, ⟨late.table, knows, doneAgain⟩, ?_⟩
    · cases declared with
      | error refusal =>
        rcases loud refusal rfl with ⟨made, member, _⟩
        have loud : after.log ≠ [] := List.ne_nil_of_mem member
        refine ⟨evolvesAgain.widen (plan.narrows ?_), annotated, addsAgain.log.isPrefix,
          fun quiet => absurd quiet loud⟩
        rintro use rfl
        exact ⟨rfl, node, rfl, fun quiet => absurd quiet loud⟩
      | ok id =>
        rcases follows.refuses (by rfl) unmet used done (by rfl) (by rfl) declares with
          ⟨sameTableAgain, rfl⟩
        rcases remarks _ rfl with ⟨made, member, previous, read, remarks⟩
        refine ⟨?_, annotated, addsAgain.log.isPrefix, fun _ label settled other declared => ?_⟩
        · rw [sameTableAgain]
          exact .refl late.table
        · rw [Declares.declarers_eq rfl done] at declared
          rw [sameTable]
          refine (List.mem_append.mp declared).imp_right fun new => ?_
          split at new
          · next same =>
            subst same
            exact ⟨made, member, later.table, previous, evolvesAgain.grows, .refl _, read,
              remarks rfl⟩
          · exact absurd new List.not_mem_nil
    · rintro id rfl
      exact (follows.refuses (by rfl) unmet used done (by rfl) (by rfl) declares).2

/-- A declaration in the current scope or in a header.  The node may declare something in the second
pass if it was refused in the first. -/
theorem echoes_declare (ready : Ready (plan.setting ∅) surroundings table pending)
    {name type : Encoding} {kind kindAgain : SymbolKind} {scope : ScopeId} {node : Tree.NodeId}
    {span : Option Span}
    (aliased : ∀ target, kind = .typedefName (some target) → table.HasSymbol target)
    (aliasedAgain : ∀ late, known late → ∀ target, kindAgain = .typedefName (some target) →
      late.HasSymbol target) :
    Echoes plan {.declare node} surroundings table pending known
      (declare scope (.ofDeclaration name kind type scope node span))
      (declare scope (.ofDeclaration name kindAgain type scope node span))
      (fun id after left => pending = left ∧ Answers kind.family.body? after id)
      fun _ other after => Answers kindAgain.family.body? after other := by
  have answers : ∀ {kind : SymbolKind} {before after : Table} {id : SymbolId},
      before.Declares scope (.ofDeclaration name kind type scope node span) after (.ok id) →
      Answers kind.family.body? after (some id) := by
    rintro kind before after id done known same shape body
    cases same
    exact Declares.mayHave done body
  rw [declare_eq_attempt, declare_eq_attempt]
  refine .answering ready fun text => ?_
  refine .bind (.only _)
    (echoes_attempt ready aliased aliasedAgain (looks_pure text)) ?_
  rintro declared after left ready _ _ ⟨rfl, done⟩ other
  cases declared with
  | ok id =>
    cases other with
    | ok again => exact .pure ready ⟨rfl, answers done⟩ fun _ _ ⟨⟨_, _, again⟩, _⟩ => answers again
    | error refusal => exact .pure ready ⟨rfl, answers done⟩ fun _ _ _ => .none
  | error refusal =>
    cases other with
    | ok again => exact .pure ready ⟨rfl, .none⟩ fun _ _ ⟨⟨_, _, again⟩, _⟩ => answers again
    | error refusal => exact .pure ready ⟨rfl, .none⟩ fun _ _ _ => .none

theorem recurs_declareQuietly (ready : Ready (plan.setting ∅) surroundings table pending)
    {name type : Encoding} {kind kindAgain : SymbolKind} {scope : ScopeId} {node : Tree.NodeId}
    {span : Option Span}
    (aliased : ∀ target, kind = .typedefName (some target) → table.HasSymbol target)
    (aliasedAgain : ∀ late, known late → ∀ target, kindAgain = .typedefName (some target) →
      late.HasSymbol target) :
    Recurs plan {.declare node} surroundings table pending known
      (declareQuietly scope (.ofDeclaration name kind type scope node span))
      (declareQuietly scope (.ofDeclaration name kindAgain type scope node span)) :=
  .discard (echoes_declare ready aliased aliasedAgain)

/-- A name without a qualifier is declared again.  Where a qualifier leads, and what is found there,
may be different in the second pass. -/
theorem echoes_declareNamed (ready : Ready (plan.setting ∅) surroundings table pending)
    {name type : Encoding} {kind kindAgain : SymbolKind} {node : Tree.NodeId} {span : Option Span}
    (plain : ∀ target, kind ≠ .typedefName target)
    (plainAgain : ∀ target, kindAgain ≠ .typedefName target)
    (unsettled : name.isQualified = true → node ∉ plan.settled) :
    Echoes plan {.declare node} surroundings table pending known
      (declareNamed name kind type node span) (declareNamed name kindAgain type node span)
      (fun answer after left => pending = left ∧ Answers kind.family.body? after answer.1 ∧
        after.Open answer.2)
      fun _ other after => Answers kindAgain.family.body? after other.1 ∧ after.Open other.2 := by
  by_cases qualified : name.isQualified = true
  · have used := Set.mem_singleton (Use.declare node)
    exact .ofKeeps (keeps_declareNamed (ready.allowing _) used plain) (fun _ _ _ holds => holds.1)
      (fun late there _ _ => keeps_declareNamed there used plainAgain)
      (plan.declare_subset_free (unsettled qualified)) fun _ _ _ holds => holds
  · unfold declareNamed
    refine .currently ready ?_
    rw [if_neg qualified, if_neg qualified]
    refine .bind (.only _)
      (echoes_declare ready (fun target is => absurd is (plain _))
        fun _ _ target is => absurd is (plainAgain _)) ?_
    rintro id after left ready _ _ ⟨rfl, answers⟩ other
    exact .pure ready ⟨rfl, answers, ready.current⟩
      fun late there answersAgain => ⟨answersAgain, there.current⟩

end Binding
end CppNames
