import CppNames.Lookup.Unqualified
import CppNames.Proofs.Lookup.Closure
import Mathlib.Data.List.Chain
import Mathlib.Logic.Relation

namespace CppNames
namespace Table

/-!
# Lookup outwards through scopes

An unqualified name is searched in a scope, then in the namespaces that the scope nominates,
and then in the scope around it.  A nominated namespace is searched by itself, exactly like
the links of a qualified name, and is remembered as searched.

The memory has a price.  A namespace hands the search on to the scope around it only if that
scope was not searched before.  Where a using-directive further inside has nominated the
outer scope, the search ends there, and the scopes beyond it are never asked.  A declaration
at file level is then invisible inside a namespace that nominates its own parent.  `Barred`
describes these places exactly by paths of the table.  Where no such place lies between a
scope and an enclosing one that declares a name, the name is found.
-/

variable {table : Table} {name : Encoding} {context : LookupContext}

/-- One step from a scope to the scope around it. -/
def Around (table : Table) (inner outer : ScopeId) : Prop :=
  ∃ scope, table.scope inner = .ok scope ∧ scope.outer = some outer

/-- No scope lies around itself. -/
def Acyclic (table : Table) : Prop := ∀ id, ¬ Relation.TransGen table.Around id id

/-- The index of a namespace. -/
def IsNamespace (table : Table) (id : ScopeId) : Prop :=
  ∃ scope, table.scope id = .ok scope ∧ scope.region.isNamespace = true

/-- Using-directives nominate namespaces only. -/
def NominatesNamespaces (table : Table) : Prop :=
  ∀ id, ∀ target ∈ table.linked Region.nominated id, table.IsNamespace target

/-- A scope that offers nothing under a name: neither itself nor its parameters have it, nor
the bases that it leads to, nor the namespaces. -/
structure Silent (table : Table) (name : Encoding) (context : LookupContext) (id : ScopeId) :
    Prop where
  own : table.members name context id = []
  parameters : ∀ inside ∈ table.linked (·.parameters?.toList) id,
    table.members name context inside = []
  inherited : table.searchesBases = true → ∀ base,
    LeadsTo table Region.bases name context id base → table.members name context base = []
  nominated : ∀ target, LeadsTo table Region.nominated name context id target →
    table.members name context target = []

/-- A place between two scopes where the search outwards ends: a namespace whose outer scope
was searched before, because using-directives lead to it from a scope passed on the way, and
up to which nothing was found. -/
def Barred (table : Table) (name : Encoding) (context : LookupContext)
    (first last : ScopeId) : Prop :=
  ∃ start inner outer, Relation.ReflTransGen table.Around first start ∧
    Relation.ReflTransGen table.Around start inner ∧ table.IsNamespace inner ∧
    table.Around inner outer ∧ Relation.ReflTransGen table.Around outer last ∧
    LeadsTo table Region.nominated name context start outer ∧
    ∀ passed, Relation.ReflTransGen table.Around first passed →
      Relation.ReflTransGen table.Around passed inner → Silent table name context passed

/-! ## Nominated namespaces -/

/-- What a scope has to offer, as the state of a search. -/
def Local.search (found : Local) : Search := ⟨found.found, found.searched⟩

/-- Searching one nominated namespace after others, unless it was searched before. -/
def nominatedStep (table : Table) (name : Encoding) (steps : Nat) (context : LookupContext)
    (soFar : Local) (target : ScopeId) : Outcome Local :=
  if target ∈ soFar.searched then .ok soFar
  else do
    let there ← unqualifiedWithin table name steps { context with nominated := true } target
      soFar.searched
    return ⟨soFar.found.union there.found, there.searched⟩

/-- The same step on the states of a search. -/
def nominatedSearch (table : Table) (name : Encoding) (steps : Nat) (context : LookupContext)
    (before : Search) (target : ScopeId) : Outcome Search :=
  (nominatedStep table name steps context ⟨before.found, before.visited⟩ target).map Local.search

theorem foldlM_nominatedStep (steps : Nat) (targets : List ScopeId) (before : Local) :
    (targets.foldlM (nominatedStep table name steps context) before).map Local.search =
      targets.foldlM (nominatedSearch table name steps context) before.search := by
  induction targets generalizing before with
  | nil => rfl
  | cons target rest ih =>
    rw [List.foldlM_cons, List.foldlM_cons]
    have same : nominatedSearch table name steps context before.search target =
        (nominatedStep table name steps context before target).map Local.search := rfl
    rw [same]
    cases nominatedStep table name steps context before target with
    | error fault => rfl
    | ok middle => exact ih middle

/-! ## One step outwards -/

/-- What a scope that lacks a name offers through its using-directives. -/
def through (table : Table) (name : Encoding) (steps : Nat) (context : LookupContext)
    (targets : List ScopeId) (own : SymbolSet) (searched : List ScopeId) : Outcome Local :=
  if own.isEmpty then
    targets.foldlM (nominatedStep table name steps context) ⟨.none, searched⟩
  else .ok ⟨own, searched⟩

/-- What a scope offers before the scopes around it are searched. -/
def offered (table : Table) (name : Encoding) (steps : Nat) (context : LookupContext)
    (id : ScopeId) (region : Region) (own : SymbolSet) (searched : List ScopeId) :
    Outcome Local :=
  match region with
  | .namespaceBody .. =>
    through table name steps context region.nominated own (id :: searched)
  | .functionBody _ _ parameters _ => do
    let own ← orElse own fun _ =>
      parameters.elim (.ok .none) fun inside => table.find inside name context
    through table name steps context region.nominated own searched
  | .block .. => through table name steps context region.nominated own searched
  | .classBody _ _ bases => do
    let found ← orElse own fun _ => table.inherited id bases name context
    return ⟨found, searched⟩
  | .prototype _ | .templateParameters _ => return ⟨own, searched⟩

/-- Whether the search stays where it is, although nothing was found. -/
def stays (context : LookupContext) (scope : Scope) (here : Local) : Bool :=
  scope.region.isNamespace && (context.nominated || scope.outer.all (here.searched.contains ·))

/-- How the search goes on behind a scope: to the scope around it, or nowhere. -/
def outwards (table : Table) (name : Encoding) (steps : Nat) (context : LookupContext)
    (scope : Scope) (here : Local) : Outcome Local :=
  match scope.outer with
  | some outer =>
    if !here.found.isEmpty || stays context scope here then .ok here
    else table.unqualifiedWithin name steps context outer here.searched
  | none => .ok here

theorem outwards_of_found (steps : Nat) (scope : Scope) {here : Local}
    (found : here.found.isEmpty = false) :
    outwards table name steps context scope here = .ok here := by
  unfold outwards
  cases scope.outer <;> simp [found]

theorem outwards_of_stays (steps : Nat) {scope : Scope} {here : Local}
    (rests : stays context scope here = true) :
    outwards table name steps context scope here = .ok here := by
  unfold outwards
  cases scope.outer <;> simp [rests]

theorem outwards_of_outer (steps : Nat) {scope : Scope} {here : Local} {outer : ScopeId}
    (nothing : here.found.isEmpty = true) (goesOn : stays context scope here = false)
    (around : scope.outer = some outer) :
    outwards table name steps context scope here =
      table.unqualifiedWithin name steps context outer here.searched := by
  unfold outwards
  rw [around]
  simp [nothing, goesOn]

theorem unqualifiedWithin_succ (steps : Nat) (id : ScopeId) (searched : List ScopeId)
    {scope : Scope} {own : SymbolSet} (read : table.scope id = .ok scope)
    (found : table.find id name context = .ok own) :
    table.unqualifiedWithin name (steps + 1) context id searched =
      offered table name steps context id scope.region own searched >>=
        outwards table name steps context scope := by
  rcases scope with ⟨region, outer, nested, bindings⟩
  simp only [unqualifiedWithin, read, found, bind, Except.bind]
  cases region with
  | classBody _ _ bases =>
    simp only [offered, bind, Except.bind]
    cases orElse own fun _ => table.inherited id bases name context <;> rfl
  | functionBody _ _ parameters _ =>
    simp only [offered, bind, Except.bind]
    cases orElse own fun _ =>
      parameters.elim (.ok .none) fun inside => table.find inside name context <;> rfl
  | _ => rfl

/-- A nominated namespace is searched by itself, without the scopes around it. -/
theorem unqualifiedWithin_nominated (steps : Nat) (id : ScopeId) (searched : List ScopeId)
    {scope : Scope} {own : SymbolSet} (read : table.scope id = .ok scope)
    (isNamespace : scope.region.isNamespace = true)
    (found : table.find id name context = .ok own) :
    table.unqualifiedWithin name (steps + 1) { context with nominated := true } id searched =
      through table name steps context scope.region.nominated own (id :: searched) := by
  have foundNominated : table.find id name { context with nominated := true } = .ok own := found
  rw [unqualifiedWithin_succ steps id searched read foundNominated]
  rcases scope with ⟨region, outer, nested, bindings⟩
  cases region with
  | namespaceBody inner fragments nominated =>
    simp only [offered]
    change through table name steps context nominated own (id :: searched) >>= _ =
      through table name steps context nominated own (id :: searched)
    cases through table name steps context nominated own (id :: searched) with
    | error fault => rfl
    | ok here => exact outwards_of_stays steps rfl
  | _ => cases isNamespace

/-! ## What the nominated namespaces offer -/

/-- Without a name of its own, a scope offers what a search of some namespaces finds. -/
theorem through_of_explores {steps : Nat} {targets visited : List ScopeId} {own : SymbolSet}
    (lacks : own.isEmpty = true)
    (each : ∀ target ∈ targets, Explores table Region.nominated name context
      (nominatedSearch table name steps context · target) steps [target])
    (room : table.unvisited visited < steps) :
    ∃ after : Search,
      through table name steps context targets own visited = .ok ⟨after.found, after.visited⟩ ∧
        Explored table Region.nominated name context ⟨{}, visited⟩ targets after := by
  rcases explores_foldlM steps targets each ⟨{}, visited⟩ room with ⟨after, ran, explored⟩
  have mapped : (targets.foldlM (nominatedStep table name steps context) ⟨.none, visited⟩).map
      Local.search = .ok after := (foldlM_nominatedStep steps targets ⟨.none, visited⟩).trans ran
  rcases Outcome.of_map mapped with ⟨here, result, rfl⟩
  refine ⟨here.search, ?_, explored⟩
  simp only [through, lacks, if_true]
  rw [result]
  rfl

/-- A nominated namespace is explored along its own using-directives, and nothing outside it
is searched. -/
theorem Sound.explores_nominatedSearch (sound : table.Sound) (only : table.NominatesNamespaces)
    (steps : Nat) (target : ScopeId) (namespaced : table.IsNamespace target) :
    Explores table Region.nominated name context
      (nominatedSearch table name steps context · target) steps [target] := by
  induction steps generalizing target with
  | zero => exact fun before room => absurd room (Nat.not_lt_zero _)
  | succ steps ih =>
    intro before room
    rcases namespaced with ⟨scope, read, isNamespace⟩
    have inside := hasScope_of_scope read
    by_cases old : target ∈ before.visited
    · refine ⟨before, ?_, Explored.visited before (by simp [old])⟩
      simp only [nominatedSearch, nominatedStep, if_pos old]
      rfl
    · have own := (sound.find inside name context).1
      have linked := linked_of_scope read Region.nominated
      simp only [nominatedSearch, nominatedStep, if_neg old,
        unqualifiedWithin_nominated steps target before.visited read isNamespace own]
      by_cases lacks : table.members name context target = []
      · have fewer := unvisited_cons_lt inside old
        have empty : (⟨table.members name context target, false⟩ : SymbolSet).isEmpty = true := by
          simp [lacks, SymbolSet.isEmpty]
        rcases through_of_explores empty
          (fun other link => ih other (only target other link))
          (by omega : table.unvisited (target :: before.visited) < steps)
          with ⟨inner, ran, behind⟩
        refine ⟨⟨before.found.union inner.found, inner.visited⟩, ?_,
          Explored.through old lacks behind⟩
        simp only [← linked, ran]
        rfl
      · refine ⟨⟨before.found.union ⟨table.members name context target, false⟩,
          target :: before.visited⟩, ?_, Explored.stop old lacks⟩
        have some : (table.members name context target).isEmpty = false := by
          simpa using lacks
        simp only [through, SymbolSet.isEmpty, some, Bool.false_and, Bool.false_eq_true, if_false]
        rfl

/-- Searched namespaces among which nothing is left to find. -/
structure Settled (table : Table) (name : Encoding) (context : LookupContext)
    (searched : List ScopeId) : Prop where
  lacks : ∀ other ∈ searched, table.members name context other = []
  closed : ∀ other ∈ searched, ∀ target ∈ table.linked Region.nominated other,
    target ∈ searched

/-- What is searched after a scope offered nothing: what was searched before, perhaps the
scope itself, and the namespaces that its using-directives lead to. -/
structure Leaves (table : Table) (name : Encoding) (context : LookupContext) (id : ScopeId)
    (searched after : List ScopeId) : Prop where
  settled : Settled table name context after
  kept : ∀ other ∈ searched, other ∈ after
  begun : ∀ target ∈ table.linked Region.nominated id, target ∈ after
  origin : ∀ other ∈ after, other ∈ searched ∨ other = id ∨
    LeadsTo table Region.nominated name context id other

/-- The using-directives of a scope can be searched behind what the scope itself offers. -/
theorem Sound.through (sound : table.Sound) (only : table.NominatesNamespaces) {steps : Nat}
    (room : table.scopes.size < steps) {id : ScopeId} {searched : List ScopeId}
    (spent : Spent table Region.nominated name context id searched) (own : SymbolSet) :
    ∃ here, Table.through table name steps context (table.linked Region.nominated id) own
        searched = .ok here ∧
      (here.found.isEmpty = true ↔ own.isEmpty = true ∧
        ∀ target, LeadsTo table Region.nominated name context id target →
          table.members name context target = []) ∧
      (here.found.isEmpty = true → Leaves table name context id searched here.searched) := by
  cases empty : own.isEmpty with
  | false => exact ⟨⟨own, searched⟩, by simp [Table.through, empty], by simp [empty], by simp [empty]⟩
  | true =>
    have each : ∀ target ∈ table.linked Region.nominated id,
        Explores table Region.nominated name context
          (nominatedSearch table name steps context · target) steps [target] :=
      fun target link => sound.explores_nominatedSearch only steps target (only id target link)
    rcases through_of_explores empty each
      (Nat.lt_of_le_of_lt (unvisited_le_size searched) room) with ⟨after, ran, explored⟩
    have silent := explored.isEmpty_iff spent rfl
    refine ⟨⟨after.found, after.visited⟩, ran, by simpa using silent, fun nothing => ?_⟩
    have lacks : ∀ other ∈ after.visited, table.members name context other = [] := by
      intro other member
      rcases explored.leadsTo member with old | path
      · exact spent.lacks other old
      · exact silent.mp nothing other path
    exact {
      settled := ⟨lacks, fun other member => explored.onward spent member (lacks other member)⟩
      kept := explored.kept
      begun := explored.begun
      origin := fun other member => (explored.leadsTo member).imp_right .inr }

theorem LeadsTo.not_of_unlinked {links : Links} {scope target : ScopeId}
    (none : table.linked links scope = []) : ¬ LeadsTo table links name context scope target := by
  intro path
  cases path with
  | link member => rw [none] at member; cases member
  | beyond member _ _ => rw [none] at member; cases member

/-- What a class inherits can be searched, and is empty if no base has the name. -/
theorem Sound.inherited (sound : table.Sound) {id : ScopeId} {scope : Scope}
    (read : table.scope id = .ok scope) (lacks : table.members name context id = []) :
    ∃ found, Table.inherited table id scope.region.bases name context = .ok found ∧
      (found.isEmpty = true ↔ (table.searchesBases = true → ∀ base,
        LeadsTo table Region.bases name context id base →
          table.members name context base = [])) := by
  unfold Table.inherited
  cases table.searchesBases with
  | false => exact ⟨.none, rfl, by simp [SymbolSet.isEmpty, SymbolSet.none]⟩
  | true =>
    rcases sound.searchAll vouched_bases [id] (table.linked Region.bases id)
      (fun start member => sound.linked vouched_bases member) with ⟨after, ran, explored⟩
    rw [linked_of_scope read] at ran
    refine ⟨after.found, ran, (explored.isEmpty_iff (.self lacks) rfl).trans ?_⟩
    exact ⟨fun silent _ => silent, fun silent => silent rfl⟩

/-- A scope that has the name offers it. -/
theorem offered_own (steps : Nat) (id : ScopeId) (region : Region) {own : SymbolSet}
    (has : own.isEmpty = false) (searched : List ScopeId) :
    ∃ here, offered table name steps context id region own searched = .ok here ∧
      here.found = own := by
  cases region <;>
    simp [offered, Table.through, orElse, has, bind, Except.bind, pure, Except.pure]

theorem through_nil (steps : Nat) (own : SymbolSet) (searched : List ScopeId) :
    Table.through table name steps context [] own searched = .ok ⟨own, searched⟩ := by
  unfold Table.through
  split
  · next empty =>
    rw [SymbolSet.eq_none_of_isEmpty empty]
    rfl
  · rfl

/-- The names of the parameters of a function, and of no other scope. -/
theorem Sound.offered_parameters (sound : table.Sound) (steps : Nat) {id : ScopeId} {scope : Scope}
    (read : table.scope id = .ok scope) {inner : Encoding} {declaration : Tree.NodeId}
    {parameters : Option ScopeId} {nominated : List ScopeId}
    (region : scope.region = .functionBody inner declaration parameters nominated)
    (searched : List ScopeId) :
    ∃ more, Table.offered table name steps context id scope.region ⟨[], false⟩ searched =
        Table.through table name steps context nominated more searched ∧
      (more.isEmpty = true ↔ ∀ inside ∈ parameters.toList,
        table.members name context inside = []) := by
  have named := (sound.scope read).region
  rw [region] at named ⊢
  cases parameters with
  | none => exact ⟨.none, rfl, fun _ _ member => absurd member List.not_mem_nil, fun _ => rfl⟩
  | some inside =>
    have known := named inside (by simp [Region.named?, Region.parameters?])
    have own := (sound.find known name context).1
    refine ⟨⟨table.members name context inside, false⟩, ?_, ?_⟩
    · simp only [Table.offered, orElse, SymbolSet.isEmpty, List.isEmpty_nil, Bool.not_false,
        Bool.and_self, if_true, Option.elim_some, own, bind, Except.bind, Region.nominated]
    · simp [SymbolSet.isEmpty_iff]

/-- What a scope without the name has to offer before its using-directives are searched: the
names of its parameters and what it inherits. -/
theorem Sound.offered_eq_through (sound : table.Sound) (steps : Nat) {id : ScopeId}
    {scope : Scope} (read : table.scope id = .ok scope)
    (lacks : table.members name context id = []) (searched : List ScopeId) :
    ∃ more visited, Table.offered table name steps context id scope.region ⟨[], false⟩ searched =
        Table.through table name steps context (table.linked Region.nominated id) more visited ∧
      (visited = searched ∨ visited = id :: searched) ∧
      (more.isEmpty = true ↔
        (∀ inside ∈ table.linked (·.parameters?.toList) id,
          table.members name context inside = []) ∧
        (table.searchesBases = true → ∀ base, LeadsTo table Region.bases name context id base →
          table.members name context base = [])) := by
  have bases := linked_of_scope read Region.bases
  rw [linked_of_scope read, linked_of_scope read]
  have noBase : scope.region.bases = [] → table.searchesBases = true → ∀ base,
      LeadsTo table Region.bases name context id base →
        table.members name context base = [] :=
    fun none _ base path => absurd path (LeadsTo.not_of_unlinked (bases.trans none))
  have noParameter : ∀ inside ∈ ([] : List ScopeId), table.members name context inside = [] :=
    fun _ member => absurd member List.not_mem_nil
  cases region : scope.region with
  | namespaceBody inner fragments nominated =>
    rw [region] at noBase
    exact ⟨⟨[], false⟩, id :: searched, rfl, .inr rfl, fun _ => ⟨noParameter, noBase rfl⟩,
      fun _ => rfl⟩
  | functionBody inner declaration parameters nominated =>
    rcases sound.offered_parameters steps read region searched with ⟨more, ran, silent⟩
    rw [region] at noBase ran
    exact ⟨more, searched, ran, .inl rfl, silent.trans (and_iff_left (noBase rfl)).symm⟩
  | block node nominated =>
    rw [region] at noBase
    exact ⟨⟨[], false⟩, searched, rfl, .inl rfl, fun _ => ⟨noParameter, noBase rfl⟩, fun _ => rfl⟩
  | classBody inner specifier linked =>
    rcases sound.inherited read lacks with ⟨more, ran, silent⟩
    rw [region] at ran
    refine ⟨more, searched, ?_, .inl rfl, silent.trans (and_iff_right noParameter).symm⟩
    have asked : orElse ⟨[], false⟩ (fun _ => table.inherited id linked name context) =
        .ok more := ran
    simp only [Table.offered, asked, Region.nominated, through_nil, bind, Except.bind, pure,
      Except.pure]
  | prototype declaration =>
    rw [region] at noBase
    exact ⟨⟨[], false⟩, searched, rfl, .inl rfl, fun _ => ⟨noParameter, noBase rfl⟩, fun _ => rfl⟩
  | templateParameters declaration =>
    rw [region] at noBase
    exact ⟨⟨[], false⟩, searched, rfl, .inl rfl, fun _ => ⟨noParameter, noBase rfl⟩, fun _ => rfl⟩

/-- A scope that lacks the name can be asked for it.  It offers nothing exactly if it is
silent. -/
theorem Sound.offered (sound : table.Sound) (only : table.NominatesNamespaces) {steps : Nat}
    (room : table.scopes.size < steps) {id : ScopeId} {scope : Scope}
    (read : table.scope id = .ok scope) (lacks : table.members name context id = [])
    {searched : List ScopeId} (settled : Settled table name context searched) :
    ∃ here, Table.offered table name steps context id scope.region ⟨[], false⟩ searched =
        .ok here ∧
      (here.found.isEmpty = true ↔ Silent table name context id) ∧
      (here.found.isEmpty = true → Leaves table name context id searched here.searched) := by
  rcases sound.offered_eq_through steps read lacks searched with
    ⟨more, visited, same, which, none⟩
  have inside : ∀ other ∈ visited, other = id ∨ other ∈ searched := by
    rcases which with rfl | rfl
    · exact fun other member => .inr member
    · exact fun other member => List.mem_cons.mp member
  have kept : ∀ other ∈ searched, other ∈ visited := by
    rcases which with rfl | rfl
    · exact fun other member => member
    · exact fun other member => List.mem_cons_of_mem _ member
  have spent : Spent table Region.nominated name context id visited := by
    refine ⟨fun other member => ?_, fun other member => ?_⟩
    · rcases inside other member with rfl | old
      · exact lacks
      · exact settled.lacks other old
    · refine (inside other member).imp_right fun old target link => ?_
      exact kept target (settled.closed other old target link)
  rcases sound.through only room spent more with ⟨here, ran, empty, leaves⟩
  refine ⟨here, same.trans ran, ?_, fun nothing => ?_⟩
  · rw [empty, none]
    constructor
    · rintro ⟨⟨parameters, inherited⟩, nominated⟩
      exact ⟨lacks, parameters, inherited, nominated⟩
    · exact fun silent => ⟨⟨silent.parameters, silent.inherited⟩, silent.nominated⟩
  · have left := leaves nothing
    refine ⟨left.settled, fun other member => left.kept other (kept other member), left.begun, ?_⟩
    intro other member
    rcases left.origin other member with old | new
    · rcases inside other old with same | old
      · exact .inr (.inl same)
      · exact .inl old
    · exact .inr new

/-! ## The walk outwards -/

/-- What a walk from a scope outwards has done when it comes to a scope.  Everything passed was
silent, and what was searched lies on the way or is led to from there. -/
structure OnTheWay (table : Table) (name : Encoding) (context : LookupContext)
    (first current : ScopeId) (searched : List ScopeId) : Prop where
  way : Relation.ReflTransGen table.Around first current
  settled : Settled table name context searched
  origin : ∀ other ∈ searched, ∃ start, Relation.ReflTransGen table.Around first start ∧
    Relation.TransGen table.Around start current ∧
    (other = start ∨ LeadsTo table Region.nominated name context start other)
  passed : ∀ start, Relation.ReflTransGen table.Around first start →
    Relation.TransGen table.Around start current →
    Silent table name context start ∧
      ∀ target ∈ table.linked Region.nominated start, target ∈ searched

theorem around_unique {inner outer other : ScopeId} (first : table.Around inner outer)
    (second : table.Around inner other) : outer = other := by
  rcases first with ⟨scope, read, same⟩
  rcases second with ⟨_, again, sameAgain⟩
  rw [read] at again
  cases again
  rw [same] at sameAgain
  exact Option.some.inj sameAgain

/-- On the way from a scope to the scope around another one lies nothing but that scope and
the way to the other one. -/
theorem Acyclic.before (acyclic : table.Acyclic) {first start current outer : ScopeId}
    (way : Relation.ReflTransGen table.Around first current) (step : table.Around current outer)
    (toStart : Relation.ReflTransGen table.Around first start)
    (fromStart : Relation.TransGen table.Around start outer) :
    Relation.ReflTransGen table.Around start current := by
  have unique : Relator.RightUnique table.Around := fun _ _ _ => around_unique
  rcases Relation.ReflTransGen.total_of_right_unique unique toStart way with before | after
  · exact before
  · rcases Relation.ReflTransGen.cases_head after with same | ⟨next, link, rest⟩
    · rw [same]
    · rw [around_unique link step] at rest
      exact absurd (Relation.TransGen.trans_right rest fromStart) (acyclic outer)

/-- Where a scope on the way is silent, the walk may go on to the scope around it. -/
theorem OnTheWay.step (acyclic : table.Acyclic) {first current outer : ScopeId}
    {searched after : List ScopeId} (walk : OnTheWay table name context first current searched)
    (silent : Silent table name context current)
    (leaves : Leaves table name context current searched after)
    (step : table.Around current outer) : OnTheWay table name context first outer after where
  way := walk.way.tail step
  settled := leaves.settled
  origin other member := by
    rcases leaves.origin other member with old | new
    · rcases walk.origin other old with ⟨start, before, behind, which⟩
      exact ⟨start, before, behind.tail step, which⟩
    · exact ⟨current, walk.way, .single step, new⟩
  passed start before behind := by
    have way := acyclic.before walk.way step before behind
    rcases Relation.reflTransGen_iff_eq_or_transGen.mp way with same | behind
    · rw [← same]
      exact ⟨silent, leaves.begun⟩
    · rcases walk.passed start before behind with ⟨nothing, links⟩
      exact ⟨nothing, fun target link => leaves.kept target (links target link)⟩

/-- One step of the walk: a scope is asked, and the search goes on behind what it offers. -/
theorem Sound.unqualifiedWithin_step (sound : table.Sound) (only : table.NominatesNamespaces)
    {steps : Nat} (room : table.scopes.size < steps) {id : ScopeId} {scope : Scope}
    (read : table.scope id = .ok scope) {searched : List ScopeId}
    (settled : Settled table name context searched) :
    ∃ here, table.unqualifiedWithin name (steps + 1) context id searched =
        outwards table name steps context scope here ∧
      (here.found.isEmpty = true ↔ Silent table name context id) ∧
      (here.found.isEmpty = true → Leaves table name context id searched here.searched) := by
  have own := (sound.find (hasScope_of_scope read) name context).1
  have run := unqualifiedWithin_succ steps id searched read own
  by_cases lacks : table.members name context id = []
  · rw [lacks] at run
    rcases sound.offered only room read lacks settled with ⟨here, ran, silent, leaves⟩
    rw [ran] at run
    exact ⟨here, run, silent, leaves⟩
  · have has : (⟨table.members name context id, false⟩ : SymbolSet).isEmpty = false := by
      simpa [SymbolSet.isEmpty] using lacks
    rcases offered_own steps id scope.region has searched with ⟨here, ran, same⟩
    rw [ran] at run
    refine ⟨here, run, ?_, ?_⟩
    · rw [same, has]
      exact ⟨fun impossible => (Bool.false_ne_true impossible).elim,
        fun silent => absurd silent.own lacks⟩
    · intro nothing
      rw [same, has] at nothing
      exact (Bool.false_ne_true nothing).elim

theorem Around.hasScope {inner outer : ScopeId} (step : table.Around inner outer) :
    table.HasScope inner := by
  rcases step with ⟨scope, read, _⟩
  exact hasScope_of_scope read

/-- The scopes passed on a way outwards are all different, so there is room for one step more. -/
theorem Acyclic.room (acyclic : table.Acyclic) {current : ScopeId} {passed : List ScopeId}
    (inside : table.HasScope current)
    (behind : ∀ other ∈ passed, Relation.TransGen table.Around other current) {steps : Nat}
    (room : table.unvisited passed + table.scopes.size < steps) :
    ∃ fewer, steps = fewer + 1 ∧ table.scopes.size < fewer ∧
      table.unvisited (current :: passed) + table.scopes.size < fewer := by
  have fresh : current ∉ passed := fun member => acyclic current (behind current member)
  have less := unvisited_cons_lt inside fresh
  cases steps with
  | zero => omega
  | succ fewer => exact ⟨fewer, rfl, by omega, by omega⟩

theorem behind_cons {current outer : ScopeId} {passed : List ScopeId}
    (step : table.Around current outer)
    (behind : ∀ other ∈ passed, Relation.TransGen table.Around other current) :
    ∀ other ∈ current :: passed, Relation.TransGen table.Around other outer := by
  intro other member
  rcases List.mem_cons.mp member with rfl | old
  · exact .single step
  · exact (behind other old).tail step

/-- The walk stays at a silent scope on the way only if it is barred there. -/
theorem OnTheWay.barred (acyclic : table.Acyclic) (plain : context.nominated = false)
    {first current outer last : ScopeId} {scope : Scope} {searched : List ScopeId} {here : Local}
    (walk : OnTheWay table name context first current searched)
    (read : table.scope current = .ok scope) (around : scope.outer = some outer)
    (rest : Relation.ReflTransGen table.Around outer last)
    (silent : Silent table name context current)
    (leaves : Leaves table name context current searched here.searched)
    (rests : stays context scope here = true) : Barred table name context first last := by
  have step : table.Around current outer := ⟨scope, read, around⟩
  simp only [stays, plain, around, Bool.false_or, Option.all_some, Bool.and_eq_true,
    List.contains_iff_mem] at rests
  have whole : ∀ passed, Relation.ReflTransGen table.Around first passed →
      Relation.ReflTransGen table.Around passed current → Silent table name context passed := by
    intro passed before behind
    rcases Relation.reflTransGen_iff_eq_or_transGen.mp behind with same | behind
    · exact same ▸ silent
    · exact (walk.passed passed before behind).1
  rcases leaves.origin outer rests.2 with old | same | path
  · rcases walk.origin outer old with ⟨start, before, behind, same | path⟩
    · rw [same] at step
      exact absurd (behind.tail step) (acyclic start)
    · exact ⟨start, current, outer, before, behind.to_reflTransGen, ⟨scope, read, rests.1⟩, step,
        rest, path, whole⟩
  · rw [same] at step
    exact absurd (.single step) (acyclic current)
  · exact ⟨current, current, outer, walk.way, .refl, ⟨scope, read, rests.1⟩, step, rest, path,
      whole⟩

/-- The walk from a scope to an enclosing one that has the name ends, and finds something unless
it is barred on the way. -/
theorem Sound.unqualifiedWithin_ends (sound : table.Sound) (only : table.NominatesNamespaces)
    (acyclic : table.Acyclic) (plain : context.nominated = false) {first current last : ScopeId}
    (path : Relation.ReflTransGen table.Around current last)
    (inside : table.HasScope last) (has : table.members name context last ≠ []) (steps : Nat)
    (passed searched : List ScopeId)
    (behind : ∀ other ∈ passed, Relation.TransGen table.Around other current)
    (room : table.unvisited passed + table.scopes.size < steps)
    (walk : OnTheWay table name context first current searched) :
    ∃ here, table.unqualifiedWithin name steps context current searched = .ok here ∧
      (here.found.isEmpty = false ∨ Barred table name context first last) := by
  induction path using Relation.ReflTransGen.head_induction_on generalizing steps passed searched with
  | refl =>
    rcases acyclic.room inside behind room with ⟨fewer, rfl, enough, _⟩
    rcases scope_of_hasScope inside with ⟨scope, read⟩
    rcases sound.unqualifiedWithin_step only enough read walk.settled with
      ⟨here, run, silent, leaves⟩
    have found : here.found.isEmpty = false := by
      rw [← Bool.not_eq_true, silent]
      exact fun nothing => has nothing.own
    exact ⟨here, run.trans (outwards_of_found fewer scope found), .inl found⟩
  | head step rest ih =>
    rename_i current outer
    rcases acyclic.room step.hasScope behind room with ⟨fewer, rfl, enough, left⟩
    rcases step with ⟨scope, read, around⟩
    rcases sound.unqualifiedWithin_step only enough read walk.settled with
      ⟨here, run, silent, leaves⟩
    cases found : here.found.isEmpty with
    | false => exact ⟨here, run.trans (outwards_of_found fewer scope found), .inl found⟩
    | true =>
      cases rests : stays context scope here with
      | true =>
        refine ⟨here, run.trans (outwards_of_stays fewer rests), .inr ?_⟩
        exact walk.barred acyclic plain read around rest (silent.mp found) (leaves found) rests
      | false =>
        have step : table.Around current outer := ⟨scope, read, around⟩
        rw [run, outwards_of_outer fewer found rests around]
        exact ih fewer (current :: passed) here.searched (behind_cons step behind) left
          (walk.step acyclic (silent.mp found) (leaves found) step)

/-- A barred walk ends with nothing. -/
theorem Sound.unqualifiedWithin_barred (sound : table.Sound) (only : table.NominatesNamespaces)
    (acyclic : table.Acyclic) {first current start inner outer : ScopeId}
    (toStart : Relation.ReflTransGen table.Around first start)
    (fromStart : Relation.ReflTransGen table.Around start inner)
    (namespaced : table.IsNamespace inner) (around : table.Around inner outer)
    (leads : LeadsTo table Region.nominated name context start outer)
    (whole : ∀ passed, Relation.ReflTransGen table.Around first passed →
      Relation.ReflTransGen table.Around passed inner → Silent table name context passed)
    (path : Relation.ReflTransGen table.Around current inner) (steps : Nat)
    (passed searched : List ScopeId)
    (behind : ∀ other ∈ passed, Relation.TransGen table.Around other current)
    (room : table.unvisited passed + table.scopes.size < steps)
    (walk : OnTheWay table name context first current searched) :
    ∃ here, table.unqualifiedWithin name steps context current searched = .ok here ∧
      here.found.isEmpty = true := by
  induction path using Relation.ReflTransGen.head_induction_on generalizing steps passed searched with
  | refl =>
    rcases acyclic.room around.hasScope behind room with ⟨fewer, rfl, enough, _⟩
    rcases around with ⟨scope, read, around⟩
    rcases namespaced with ⟨_, again, isNamespace⟩
    rw [read] at again
    cases again
    rcases sound.unqualifiedWithin_step only enough read walk.settled with
      ⟨here, run, silent, leaves⟩
    have nothing := silent.mpr (whole inner walk.way .refl)
    have left := leaves nothing
    have begun : ∀ target ∈ table.linked Region.nominated start, target ∈ here.searched := by
      rcases Relation.reflTransGen_iff_eq_or_transGen.mp fromStart with same | before
      · rw [← same]
        exact left.begun
      · exact fun target link => left.kept target ((walk.passed start toStart before).2 target link)
    have searchedOuter : outer ∈ here.searched :=
      leads.mem_of_closed (fun other member _ => left.settled.closed other member) begun
    have rests : stays context scope here = true := by
      simp [stays, isNamespace, around, searchedOuter]
    exact ⟨here, run.trans (outwards_of_stays fewer rests), nothing⟩
  | head step rest ih =>
    rename_i current next
    rcases acyclic.room step.hasScope behind room with ⟨fewer, rfl, enough, left⟩
    rcases step with ⟨scope, read, toNext⟩
    rcases sound.unqualifiedWithin_step only enough read walk.settled with
      ⟨here, run, silent, leaves⟩
    have step : table.Around current next := ⟨scope, read, toNext⟩
    have quiet := whole current walk.way (Relation.ReflTransGen.head step rest)
    have nothing := silent.mpr quiet
    cases rests : stays context scope here with
    | true => exact ⟨here, run.trans (outwards_of_stays fewer rests), nothing⟩
    | false =>
      rw [run, outwards_of_outer fewer nothing rests toNext]
      exact ih fewer (current :: passed) here.searched (behind_cons step behind) left
        (walk.step acyclic quiet (leaves nothing) step)

theorem OnTheWay.start (acyclic : table.Acyclic) (first : ScopeId) :
    OnTheWay table name context first first [] where
  way := .refl
  settled := ⟨by simp, by simp⟩
  origin := by simp
  passed start before behind := absurd (Relation.TransGen.trans_right before behind) (acyclic first)

theorem size_lt_searchBound (visited : List ScopeId) :
    table.unvisited visited + table.scopes.size < table.searchBound := by
  have bound := table.unvisited_le_size visited
  have square : (table.scopes.size + 2) * 2 ≤ table.searchBound :=
    Nat.mul_le_mul_left _ (Nat.le_add_left 2 _)
  omega

/-- Unqualified lookup reaches the enclosing scopes up to where it is barred.  On a sound table
whose scopes do not enclose themselves and whose using-directives nominate namespaces, looking
up a name that some scope around the first one declares ends.  It finds nothing exactly if
the search is barred on the way: at a namespace whose outer scope using-directives have led to
before, while nothing was offered up to there. -/
theorem lookupUnqualified_enclosing (sound : table.Sound) (acyclic : table.Acyclic)
    (only : table.NominatesNamespaces) {first last : ScopeId}
    (path : Relation.ReflTransGen table.Around first last) {own : SymbolSet}
    (found : table.find last name context = .ok own) (has : own.isEmpty = false)
    (plain : context.nominated = false) :
    ∃ result, table.lookupUnqualified first name context = .ok result ∧
      (result.isEmpty = false ↔ ¬ Barred table name context first last) := by
  have inside : table.HasScope last := by
    rcases Outcome.of_bind found with ⟨scope, read, _⟩
    exact hasScope_of_scope read
  have members : table.members name context last ≠ [] := by
    rw [(sound.find inside name context).1] at found
    cases found
    simpa [SymbolSet.isEmpty] using has
  have start : OnTheWay table name context first first [] := OnTheWay.start acyclic first
  rcases sound.unqualifiedWithin_ends only acyclic plain path inside members table.searchBound [] []
    (by simp) (size_lt_searchBound []) start with ⟨here, run, ends⟩
  refine ⟨here.found, ?_, ?_⟩
  · simp only [lookupUnqualified, run, bind, Except.bind, pure, Except.pure]
  · constructor
    · rintro something ⟨begin', inner, outer, toStart, fromStart, namespaced, around, _, leads, whole⟩
      rcases sound.unqualifiedWithin_barred only acyclic toStart fromStart namespaced around leads
        whole (toStart.trans fromStart) table.searchBound [] [] (by simp) (size_lt_searchBound [])
        start with ⟨other, again, nothing⟩
      rw [run] at again
      cases again
      rw [nothing] at something
      cases something
    · exact fun free => ends.resolve_right free

/-! ## A namespace that nominates its own parent -/

/-- Where every step outwards leads down in some ranking, no scope encloses itself. -/
theorem acyclic_of_descends {rank : ScopeId → Nat}
    (descends : ∀ inner outer, table.Around inner outer → rank outer < rank inner) :
    table.Acyclic := by
  have lower : ∀ {inner outer}, Relation.TransGen table.Around inner outer →
      rank outer < rank inner := by
    intro inner outer way
    induction way with
    | single step => exact descends _ _ step
    | tail _ step ih => exact Nat.lt_trans (descends _ _ step) ih
  exact fun id circle => Nat.lt_irrefl _ (lower circle)

/-- Scopes that were created after the scopes around them do not enclose themselves. -/
theorem acyclic_of_created_later
    (later : ∀ (index : Nat) (scope : Scope) (outer : ScopeId),
      table.scopes[index]? = some scope → scope.outer = some outer → outer.index < index) :
    table.Acyclic := by
  have descends : ∀ inner outer, table.Around inner outer → outer.index < inner.index := by
    rintro inner outer ⟨scope, read, around⟩
    exact later inner.index scope outer (scope_eq_ok_iff.mp read) around
  exact acyclic_of_descends descends

theorem nominatesNamespaces_of_isNamespace
    (namespaces : ∀ scope ∈ table.scopes.toList, ∀ target ∈ scope.region.nominated,
      (table.scopes[target.index]?.any (·.region.isNamespace)) = true) :
    table.NominatesNamespaces := by
  intro id target link
  unfold linked at link
  split at link
  · next scope read =>
    have member := Array.mem_toList_iff.mpr (Array.mem_of_getElem? (scope_eq_ok_iff.mp read))
    rcases (Option.any_eq_true _ _).mp (namespaces scope member target link) with ⟨there, found, holds⟩
    exact ⟨there, scope_eq_ok_iff.mpr found, holds⟩
  · cases link

/-- The scopes of `int x; namespace O { namespace A { using namespace O; } }`, with the variable
as the only symbol. -/
def selfNominating : Table where
  scopes := #[⟨.namespaceBody .empty [] [], none, [⟨1⟩], [⟨⟨[0x81, 0x78]⟩, [⟨0⟩]⟩]⟩,
    ⟨.namespaceBody ⟨[0x81, 0x4f]⟩ [] [], some ⟨0⟩, [⟨2⟩], []⟩,
    ⟨.namespaceBody ⟨[0x81, 0x41]⟩ [] [⟨1⟩], some ⟨1⟩, [], []⟩]
  symbols := #[.ofDeclaration ⟨[0x81, 0x78]⟩ (.object true) ⟨[0x69]⟩ ⟨0⟩ 0 none]
  nodeScopes := []
  searchesBases := true

theorem selfNominating_sound : selfNominating.Sound := by decide

theorem selfNominating_acyclic : selfNominating.Acyclic := by
  apply acyclic_of_created_later
  intro index scope outer found around
  match index with
  | 0 => cases found; cases around
  | 1 | 2 => cases found; cases around; decide
  | _ + 3 => cases found

theorem selfNominating_nominatesNamespaces : selfNominating.NominatesNamespaces := by
  apply nominatesNamespaces_of_isNamespace
  decide

theorem selfNominating_path : Relation.ReflTransGen selfNominating.Around ⟨2⟩ ⟨0⟩ :=
  .head (b := ⟨1⟩) ⟨_, rfl, rfl⟩ (.single ⟨_, rfl, rfl⟩)

/-- The general theorem where a namespace nominates its own parent. -/
theorem lookupUnqualified_enclosing_selfNominating :
    ∃ result, selfNominating.lookupUnqualified ⟨2⟩ ⟨[0x81, 0x78]⟩ {} = .ok result ∧
      (result.isEmpty = false ↔ ¬ Barred selfNominating ⟨[0x81, 0x78]⟩ {} ⟨2⟩ ⟨0⟩) :=
  lookupUnqualified_enclosing selfNominating_sound selfNominating_acyclic
    selfNominating_nominatesNamespaces selfNominating_path
    (show selfNominating.find ⟨0⟩ _ {} = .ok ⟨[⟨0⟩], false⟩ from rfl) rfl rfl

/-- An enclosing scope that has the name is not always found: inside a namespace that nominates
its own parent, the variable of the global namespace is out of reach. -/
theorem lookupUnqualified_misses_enclosing :
    ¬ ∀ (table : Table) (name : Encoding) (context : LookupContext) (first last : ScopeId)
      (own : SymbolSet), table.Sound → table.Acyclic → table.NominatesNamespaces →
      Relation.ReflTransGen table.Around first last → table.find last name context = .ok own →
      own.isEmpty = false → context.nominated = false →
      ∃ result, table.lookupUnqualified first name context = .ok result ∧
        result.isEmpty = false := by
  intro always
  rcases always selfNominating ⟨[0x81, 0x78]⟩ {} ⟨2⟩ ⟨0⟩ ⟨[⟨0⟩], false⟩ selfNominating_sound
    selfNominating_acyclic selfNominating_nominatesNamespaces selfNominating_path rfl rfl rfl
    with ⟨result, ran, found⟩
  have empty : selfNominating.lookupUnqualified ⟨2⟩ ⟨[0x81, 0x78]⟩ {} = .ok .none := by rfl
  rw [empty] at ran
  cases ran
  cases found

end Table
end CppNames
