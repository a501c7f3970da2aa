import CppNames.Proofs.Binding.Use

namespace CppNames
namespace Binding

/-!
# Steps that are done again

A second pass over a tree meets the table as the first pass left it.  A node that declared
something finds its symbol and is refused with a report; a node that has a scope enters it again.

`Echoes` relates a step of the first pass and the step of the second pass at the same place.  The
second step makes no scopes, and it notes on the nodes of the tree what the first one noted.  Where
the first pass reports nothing, the second one also declares nothing again.
-/

open Table

/-! ## What is allowed -/

/-- What is known of a tree that is bound twice. -/
structure Rebinding where
  /-- What the nodes spell. -/
  content : Tree.NodeId → Construct
  /-- Whether there are using-declarations. -/
  aliasing : Prop
  /-- The nodes that declare the same whatever is visible. -/
  settled : Set Tree.NodeId

variable {plan : Rebinding} {surroundings : Surroundings} {pending : Option ScopeId}
  {table before middle after late later : Table} {uses front back : Set Use}

namespace Rebinding

/-- The setting in which only some uses are allowed. -/
def setting (plan : Rebinding) (uses : Set Use) : Setting where
  content := plan.content
  first := false
  held := []
  noted := {label | .note label ∈ uses}
  declaring := {label | .declare label ∈ uses}
  aliasing := plan.aliasing
  inner := Set.univ
  inside := True
  settled := ∅

/-- The uses among some of which the second pass may make new use.  It notes no scopes, and behind
a pass that was quiet, nodes that are settled declare nothing new. -/
def free (plan : Rebinding) (quiet : Prop) (uses : Set Use) : Set Use :=
  {use | use ∈ uses ∧ ∃ label, use = .declare label ∧ (quiet → label ∉ plan.settled)}

theorem narrows (plan : Rebinding) (fits : front ⊆ uses) :
    Narrows (plan.setting front) (plan.setting uses) where
  content := rfl
  first := rfl
  held _ member := member
  noted _ member := fits member
  declaring _ member := fits member
  aliasing := id
  inner := rfl
  inside := id
  settled _ member := member

theorem free_subset (plan : Rebinding) (quiet : Prop) (uses : Set Use) :
    plan.free quiet uses ⊆ uses := fun _ member => member.1

theorem free_mono (plan : Rebinding) (fits : front ⊆ uses) {quiet quieter : Prop}
    (implies : quieter → quiet) : plan.free quiet front ⊆ plan.free quieter uses := by
  rintro use ⟨member, label, same, unsettled⟩
  exact ⟨fits member, label, same, fun quieter => unsettled (implies quieter)⟩

/-- What is not settled may declare something new. -/
theorem declare_subset_free (plan : Rebinding) {label : Tree.NodeId}
    (unsettled : label ∉ plan.settled) :
    {.declare label} ⊆ plan.free True {.declare label} := by
  rintro use rfl
  exact ⟨rfl, label, rfl, fun _ => unsettled⟩

theorem unsettled_of_free {plan : Rebinding} {quiet : Prop} {label : Tree.NodeId}
    (isFree : .declare label ∈ plan.free quiet uses) (silent : quiet) : label ∉ plan.settled := by
  rcases isFree with ⟨_, _, same, unsettled⟩
  cases same
  exact unsettled silent

/-- The second pass notes no scopes. -/
theorem noted_free (plan : Rebinding) (quiet : Prop) (uses : Set Use) :
    ¬ (plan.setting (plan.free quiet uses)).noted.Nonempty := by
  rintro ⟨label, _, other, impossible, _⟩
  cases impossible

end Rebinding

theorem Ready.allowing (ready : Ready (plan.setting front) surroundings table pending)
    (uses : Set Use) : Ready (plan.setting uses) surroundings table pending where
  formed := ⟨ready.formed.consistent, ready.formed.root, ready.formed.notes, ready.formed.older,
    ready.formed.headers, ready.formed.headed, ready.formed.budding, ready.formed.housed⟩
  current := ready.current
  outermost := ready.outermost

/-- In a second pass it does not matter where a table is bound. -/
theorem Formed.again (formed : Formed (plan.setting uses) pending table)
    (isOpen : table.Open surroundings.current) :
    Ready (plan.setting uses) surroundings table pending :=
  ⟨formed, isOpen, fun out => absurd trivial out.2⟩

theorem Ready.elsewhere (ready : Ready (plan.setting uses) surroundings table pending)
    {scope : ScopeId} (isOpen : table.Open scope) :
    Ready (plan.setting uses) { surroundings with current := scope } table pending :=
  ready.formed.again isOpen

/-! ## Two passes at one place -/

/-- The nodes at hand have declared nothing yet. -/
def Unmet (uses : Set Use) (table : Table) : Prop :=
  ∀ label, .declare label ∈ uses → ∀ id, label ∉ declarers table id

/-- A table of the second pass at a place where the first pass left another one. -/
structure Follows (uses : Set Use) (before after : Table) : Prop where
  grows : before.Grows after
  notes : ∀ label, .note label ∈ uses → after.scopeOfNode? label = before.scopeOfNode? label
  declared : ∀ label, .declare label ∈ uses → ∀ id, label ∈ declarers after id →
    label ∈ declarers before id

theorem Evolves.mem_declarers (evolves : Evolves (plan.setting uses) before after)
    {label : Tree.NodeId} {id : SymbolId} (member : label ∈ declarers after id) :
    label ∈ declarers before id ∨ .declare label ∈ uses := by
  rcases evolves.declared id with ⟨added, same, allowed⟩
  rw [same] at member
  exact (List.mem_append.mp member).imp_right (allowed label)

theorem Unmet.mono (unmet : Unmet uses table) (fits : front ⊆ uses) : Unmet front table :=
  fun label member => unmet label (fits member)

theorem Follows.mono (follows : Follows uses before after) (fits : front ⊆ uses) :
    Follows front before after where
  grows := follows.grows
  notes label member := follows.notes label (fits member)
  declared label member := follows.declared label (fits member)

theorem Unmet.behind (unmet : Unmet back table) (apart : Disjoint front back)
    (evolves : Evolves (plan.setting front) table after) : Unmet back after := by
  intro label member id declared
  rcases evolves.mem_declarers declared with old | other
  · exact unmet label member id old
  · exact Set.disjoint_left.mp apart other member

/-- What another part does behind in the first pass does not matter. -/
theorem Follows.inFront (follows : Follows front after late) (apart : Disjoint front back)
    (evolves : Evolves (plan.setting back) middle after) : Follows front middle late where
  grows := evolves.grows.trans follows.grows
  notes label member :=
    (follows.notes label member).trans
      (evolves.notes label fun other => Set.disjoint_left.mp apart member other)
  declared label member id declared := by
    rcases evolves.mem_declarers (follows.declared label member id declared) with old | other
    · exact old
    · exact absurd other (Set.disjoint_left.mp apart member)

/-- What another part does in front in the second pass does not matter. -/
theorem Follows.behind (follows : Follows back after late) (apart : Disjoint front back)
    (evolves : Evolves (plan.setting front) late later) : Follows back after later where
  grows := follows.grows.trans evolves.grows
  notes label member :=
    (evolves.notes label fun other => Set.disjoint_left.mp apart other member).trans
      (follows.notes label member)
  declared label member id declared := by
    rcases evolves.mem_declarers declared with old | other
    · exact follows.declared label member id old
    · exact absurd member (Set.disjoint_left.mp apart other)

/-! ## Remarks -/

/-- Somewhere between a table and a state it was reported that a symbol is declared again. -/
def Remarked (before : Table) (after : State) (id : SymbolId) : Prop :=
  ∃ made ∈ after.log, ∃ (between : Table) (previous : Symbol), before.Grows between ∧
    between.Grows after.table ∧ between.symbol id = .ok previous ∧ Remarks made previous

theorem Remarked.behind {state : State} {id : SymbolId} (remarked : Remarked middle state id)
    (grows : before.Grows middle) : Remarked before state id := by
  rcases remarked with ⟨made, member, between, previous, first, second, read, remarks⟩
  exact ⟨made, member, between, previous, grows.trans first, second, read, remarks⟩

theorem Remarked.inFront {state behind : State} {id : SymbolId} (remarked : Remarked before state id)
    (grows : state.table.Grows behind.table) (log : state.log <+: behind.log) :
    Remarked before behind id := by
  rcases remarked with ⟨made, member, between, previous, first, second, read, remarks⟩
  exact ⟨made, log.subset member, between, previous, first, second.trans grows, read, remarks⟩

/-- What the second pass does at a place where the first pass led from one state to another.  Both
note the same scopes on the nodes of the tree. -/
structure Echoed (plan : Rebinding) (uses : Set Use) (early after late later : State) : Prop where
  evolves : Evolves (plan.setting (plan.free (after.log = []) uses)) late.table later.table
  annotated : ∃ added, after.annotations = added ++ early.annotations ∧
    later.annotations = added ++ late.annotations
  log : late.log <+: later.log
  reported : after.log = [] → ∀ label ∈ plan.settled, ∀ id, label ∈ declarers after.table id →
    label ∈ declarers early.table id ∨ Remarked late.table later id

section

variable {early between done late beyond later : State}

theorem Echoed.widen (echoed : Echoed plan front early done late later) (fits : front ⊆ uses) :
    Echoed plan uses early done late later where
  evolves := echoed.evolves.widen (plan.narrows (plan.free_mono fits id))
  annotated := echoed.annotated
  log := echoed.log
  reported := echoed.reported

theorem Echoed.trans (first : Echoed plan uses early between late beyond)
    (second : Echoed plan uses between done beyond later) (log : between.log <+: done.log) :
    Echoed plan uses early done late later := by
  have quiet : done.log = [] → between.log = [] := fun quiet => List.prefix_nil.mp (quiet ▸ log)
  constructor
  · have evolves := first.evolves.widen (plan.narrows (plan.free_mono subset_rfl quiet))
    exact evolves.trans second.evolves
  · rcases first.annotated with ⟨front, same, sameAgain⟩
    rcases second.annotated with ⟨back, sameBehind, sameAgainBehind⟩
    refine ⟨back ++ front, ?_, ?_⟩
    · rw [sameBehind, same, List.append_assoc]
    · rw [sameAgainBehind, sameAgain, List.append_assoc]
  · exact first.log.trans second.log
  · intro silent label member id declared
    rcases second.reported silent label member id declared with old | remarked
    · exact (first.reported (quiet silent) label member id old).imp_right
        fun remarked => remarked.inFront second.evolves.grows second.log
    · exact .inr (remarked.behind first.evolves.grows)

end

/-- A step of the first pass that keeps the table in form, and the step of the second pass at its
place.  If the first pass reports nothing up to there, then the second one reports whatever the
first one declared.  `known` is what is known of the table that the second step begins with,
and `like` tells what then holds of both answers and of the table behind. -/
structure Echoes {α : Type} (plan : Rebinding) (uses : Set Use) (surroundings : Surroundings)
    (table : Table) (pending : Option ScopeId) (known : Table → Prop) (step again : Bind α)
    (post : α → Table → Option ScopeId → Prop) (like : α → α → Table → Prop) : Prop where
  keeps : Keeps (plan.setting uses) surroundings table pending step post
  echo : ∀ {early after : State} {value : α}, early.table = table → early.header = pending →
    step surroundings early = .ok value after → Unmet uses table →
    ∀ {late later : State} {other : α}, Ready (plan.setting ∅) surroundings late.table pending →
      late.header = pending → known late.table → Follows uses after.table late.table →
      again surroundings late = .ok other later →
        Ready (plan.setting ∅) surroundings later.table later.header ∧
        later.header = after.header ∧ Echoed plan uses early after late later ∧
        like value other later.table

/-- A step that is echoed, of whose answer nothing is needed. -/
abbrev Recurs {α : Type} (plan : Rebinding) (uses : Set Use) (surroundings : Surroundings)
    (table : Table) (pending : Option ScopeId) (known : Table → Prop) (step again : Bind α) : Prop :=
  Echoes plan uses surroundings table pending known step again (fun _ _ _ => True)
    fun _ _ _ => True

/-! ## Rules -/

/-- Where the first pass declares nothing, the second one may stand still. -/
theorem Echoed.still {early done late later : State} (unnoted : done.annotations = early.annotations)
    (same : later.table = late.table) (unnotedAgain : later.annotations = late.annotations)
    (log : late.log <+: later.log)
    (nothing : ∀ label id, label ∈ declarers done.table id → label ∈ declarers early.table id) :
    Echoed plan uses early done late later where
  evolves := by
    rw [same]
    exact .refl late.table
  annotated := ⟨[], unnoted, unnotedAgain⟩
  log := log
  reported _ label _ id declared := .inl (nothing label id declared)

section

variable {α β : Type} {known stronger : Table → Prop} {step again : Bind α}
  {post : α → Table → Option ScopeId → Prop} {like : α → α → Table → Prop}

namespace Echoes

theorem weaken {weaker : α → Table → Option ScopeId → Prop} {looser : α → α → Table → Prop}
    (echoes : Echoes plan uses surroundings table pending known step again post like)
    (implies : ∀ value after left, post value after left → weaker value after left)
    (loosens : ∀ value other after, like value other after → looser value other after) :
    Echoes plan uses surroundings table pending known step again weaker looser where
  keeps := echoes.keeps.weaken implies
  echo sameTable sameHeader runs unmet _ _ _ ready header knows follows runsAgain := by
    rcases echoes.echo sameTable sameHeader runs unmet ready header knows follows runsAgain
      with ⟨there, same, echoed, alike⟩
    exact ⟨there, same, echoed, loosens _ _ _ alike⟩

theorem recurs (echoes : Echoes plan uses surroundings table pending known step again post like) :
    Recurs plan uses surroundings table pending known step again :=
  echoes.weaken (fun _ _ _ _ => trivial) fun _ _ _ _ => trivial

/-- The second step may begin with more that is known. -/
theorem knowing (echoes : Echoes plan uses surroundings table pending known step again post like)
    (implies : ∀ table, stronger table → known table) :
    Echoes plan uses surroundings table pending stronger step again post like where
  keeps := echoes.keeps
  echo sameTable sameHeader runs unmet _ _ _ ready header knows follows runsAgain :=
    echoes.echo sameTable sameHeader runs unmet ready header (implies _ knows) follows runsAgain

theorem widen (echoes : Echoes plan front surroundings table pending known step again post like)
    (fits : front ⊆ uses) :
    Echoes plan uses surroundings table pending known step again post like where
  keeps := echoes.keeps.widen (plan.narrows fits)
  echo sameTable sameHeader runs unmet _ _ _ ready header knows follows runsAgain := by
    rcases echoes.echo sameTable sameHeader runs (unmet.mono fits) ready header knows
      (follows.mono fits) runsAgain with ⟨there, same, echoed, alike⟩
    exact ⟨there, same, echoed.widen fits, alike⟩

/-- Facts that last while tables grow can be carried over a step. -/
theorem carry (echoes : Echoes plan uses surroundings table pending known step again post like)
    (lasts : ∀ before after, before.Grows after → known before → known after) :
    Echoes plan uses surroundings table pending known step again post
      fun value other after => like value other after ∧ known after where
  keeps := echoes.keeps
  echo sameTable sameHeader runs unmet _ _ _ ready header knows follows runsAgain := by
    rcases echoes.echo sameTable sameHeader runs unmet ready header knows follows runsAgain
      with ⟨there, same, echoed, alike⟩
    exact ⟨there, same, echoed, alike, lasts _ _ echoed.evolves.grows knows⟩

/-- More may be found out about both answers from the steps themselves. -/
theorem also (echoes : Echoes plan uses surroundings table pending known step again post like)
    (more : α → α → Table → Prop)
    (finds : ∀ {early after late later : State} {value other : α}, early.table = table →
      step surroundings early = .ok value after → Unmet uses table →
      Follows uses after.table late.table → again surroundings late = .ok other later →
      more value other later.table) :
    Echoes plan uses surroundings table pending known step again post
      fun value other after => like value other after ∧ more value other after where
  keeps := echoes.keeps
  echo sameTable sameHeader runs unmet _ _ _ ready header knows follows runsAgain := by
    rcases echoes.echo sameTable sameHeader runs unmet ready header knows follows runsAgain
      with ⟨there, same, echoed, alike⟩
    exact ⟨there, same, echoed, alike, finds sameTable runs unmet follows runsAgain⟩

/-- What is known of the second step, whatever the table, may be used for its echo. -/
theorem given {claim : Prop} (keeps : Keeps (plan.setting uses) surroundings table pending step post)
    (implies : ∀ table, stronger table → claim ∧ known table)
    (echoes : claim → Echoes plan uses surroundings table pending known step again post like) :
    Echoes plan uses surroundings table pending stronger step again post like where
  keeps := keeps
  echo sameTable sameHeader runs unmet _ _ _ ready header knows :=
    (echoes (implies _ knows).1).echo sameTable sameHeader runs unmet ready header
      (implies _ knows).2

/-- Where the second step is never done, nothing is said of it. -/
theorem never (keeps : Keeps (plan.setting uses) surroundings table pending step post)
    (impossible : ∀ table, ¬ known table) :
    Echoes plan uses surroundings table pending known step again post like :=
  .given keeps (fun table knows => ⟨impossible table knows, knows⟩) False.elim

/-- Steps that only declare what need not be declared again. -/
theorem ofKeeps {found : α → Table → Prop}
    (keeps : Keeps (plan.setting uses) surroundings table pending step post)
    (stays : ∀ value after left, post value after left → pending = left)
    (keepsAgain : ∀ late, Ready (plan.setting uses) surroundings late pending → table.Grows late →
      known late → Keeps (plan.setting uses) surroundings late pending again
        fun other later left => pending = left ∧ found other later)
    (unsettled : uses ⊆ plan.free True uses)
    (alike : ∀ value other after, found other after → like value other after) :
    Echoes plan uses surroundings table pending known step again post like where
  keeps := keeps
  echo sameTable sameHeader runs unmet late later other ready header knows follows
      runsAgain := by
    rcases keeps.ends sameTable sameHeader runs with ⟨_, evolves, _, adds, holdsFirst⟩
    have unnoted : ¬ (plan.setting uses).noted.Nonempty :=
      fun some => plan.noted_free True uses (some.imp fun _ member => unsettled member)
    have left := stays _ _ _ holdsFirst
    have grows := evolves.grows.trans follows.grows
    rcases (keepsAgain late.table (ready.allowing _) grows knows).ends rfl header runsAgain with
      ⟨there, evolvesAgain, _, addsAgain, leftAgain, holds⟩
    refine ⟨there.allowing _, leftAgain.symm.trans left, ⟨?_, ⟨[], ?_, ?_⟩, addsAgain.log.isPrefix, ?_⟩,
      alike _ _ _ holds⟩
    · exact evolvesAgain.widen
        (plan.narrows (unsettled.trans (plan.free_mono subset_rfl fun _ => trivial)))
    · exact adds.same unnoted
    · exact addsAgain.same unnoted
    · intro _ label settled id declared
      rw [sameTable]
      refine .inl ((evolves.mem_declarers declared).resolve_right fun used => ?_)
      rcases unsettled used with ⟨_, other, same, free⟩
      cases same
      exact free trivial settled

/-- Steps that make no use of any node. -/
theorem idle
    (keeps : Keeps (plan.setting ∅) surroundings table pending step fun _ _ left => pending = left)
    (keepsAgain : ∀ late, Ready (plan.setting ∅) surroundings late pending → table.Grows late →
      known late →
      Keeps (plan.setting ∅) surroundings late pending again fun _ _ left => pending = left) :
    Echoes plan ∅ surroundings table pending known step again (fun _ _ left => pending = left)
      fun _ _ _ => True := by
  refine .ofKeeps keeps (fun _ _ _ same => same) (fun late there grows knows => ?_)
    (Set.empty_subset _) fun _ _ _ (holds : True) => holds
  exact ((keepsAgain late (there.allowing ∅) grows knows).widen
    (plan.narrows (Set.empty_subset _))).weaken fun _ _ _ same => ⟨same, trivial⟩

/-- Steps that only look.  They may see different things. -/
theorem reads {looked lookedAgain : Surroundings → Table → α → Prop}
    (ready : Ready (plan.setting ∅) surroundings table pending) (first : Reads step looked)
    (second : Reads again lookedAgain) :
    Echoes plan ∅ surroundings table pending known step again
      (fun value after left => table = after ∧ pending = left ∧ looked surroundings table value)
      fun _ other after => known after ∧ lookedAgain surroundings after other := by
  refine .ofKeeps (Keeps.reads ready first) (fun _ _ _ same => same.2.1) ?_
    (Set.empty_subset _) fun _ _ _ holds => holds
  intro late ready grows knows
  refine (Keeps.reads ready second).weaken ?_
  rintro other later left ⟨rfl, rfl, holds⟩
  exact ⟨rfl, knows, holds⟩

/-- One step after another, with uses that are apart. -/
theorem bind {next nextAgain : α → Bind β} {final : β → Table → Option ScopeId → Prop}
    {finish : β → β → Table → Prop} (splits : Splits uses front back)
    (first : Echoes plan front surroundings table pending known step again post like)
    (rest : ∀ value after left, Ready (plan.setting ∅) surroundings after left →
      table.Grows after → (left = none ∨ left = pending) → post value after left →
      ∀ other, Echoes plan back surroundings after left (like value other) (next value)
        (nextAgain other) final finish) :
    Echoes plan uses surroundings table pending known (step >>= next) (again >>= nextAgain) final
      finish where
  keeps := by
    refine (first.keeps.widen (plan.narrows splits.inFront)).bind ?_
    intro value after left ready evolves header holds
    exact (rest value after left (ready.allowing _) evolves.grows header holds value).keeps.widen
      (plan.narrows splits.inBack)
  echo := by
    rcases splits with ⟨inFront, inBack, apart⟩
    intro early after result sameTable sameHeader runs unmet late later last ready header knows
      follows runsAgain
    rcases Binds.of_bind runs with ⟨value, middle, runsFront, runsBack⟩
    rcases Binds.of_bind runsAgain with ⟨other, between, againFront, againBack⟩
    rcases first.keeps.ends sameTable sameHeader runsFront with
      ⟨readyMiddle, evolvesFront, headerMiddle, _, holds⟩
    have tail := rest value middle.table middle.header (readyMiddle.allowing _) evolvesFront.grows
      headerMiddle holds other
    rcases tail.keeps.ends rfl rfl runsBack with ⟨_, evolvesBack, _, adds, _⟩
    rcases first.echo sameTable sameHeader runsFront (unmet.mono inFront) ready header
      knows ((follows.mono inFront).inFront apart evolvesBack) againFront with
      ⟨readyBetween, sameBetween, echoedFront, alike⟩
    have evolvesAgain := echoedFront.evolves.widen (plan.narrows (plan.free_subset _ front))
    rw [sameBetween] at readyBetween
    rcases tail.echo rfl rfl runsBack ((unmet.mono inBack).behind apart evolvesFront)
      readyBetween sameBetween alike ((follows.mono inBack).behind apart evolvesAgain) againBack with
      ⟨there, same, echoedBack, alikeBehind⟩
    exact ⟨there, same, (echoedFront.widen inFront).trans (echoedBack.widen inBack)
      adds.log.isPrefix, alikeBehind⟩

/-- The second step has the same answer as the first. -/
theorem agreeing {value other : α} {next nextAgain : α → Bind β}
    {final : β → Table → Option ScopeId → Prop} {finish : β → β → Table → Prop}
    (agrees : ∀ table, stronger table → other = value ∧ known table)
    (echoes : Echoes plan uses surroundings table pending known (next value) (nextAgain value) final
      finish) :
    Echoes plan uses surroundings table pending stronger (next value) (nextAgain other) final
      finish := by
  refine .given echoes.keeps agrees ?_
  rintro rfl
  exact echoes

/-- One step after another, where both passes get the same answer. -/
theorem bindSame {later : Table → Prop} {next nextAgain : α → Bind β}
    {final : β → Table → Option ScopeId → Prop} {finish : β → β → Table → Prop}
    (splits : Splits uses front back)
    (first : Echoes plan front surroundings table pending known step again post
      fun value other after => other = value ∧ later after)
    (rest : ∀ value after left, Ready (plan.setting ∅) surroundings after left →
      table.Grows after → (left = none ∨ left = pending) → post value after left →
      Echoes plan back surroundings after left later (next value) (nextAgain value) final finish) :
    Echoes plan uses surroundings table pending known (step >>= next) (again >>= nextAgain) final
      finish :=
  .bind splits first fun value after left ready grows header holds _ =>
    .agreeing (fun _ knows => knows) (rest value after left ready grows header holds)

theorem pure {value other : α} (ready : Ready (plan.setting ∅) surroundings table pending)
    (holds : post value table pending)
    (alike : ∀ late, Ready (plan.setting ∅) surroundings late pending → known late →
      like value other late) :
    Echoes plan uses surroundings table pending known (Pure.pure value) (Pure.pure other) post
      like where
  keeps := .pure (ready.allowing uses) holds
  echo := by
    rintro early after result rfl rfl runs unmet late later last ready header knows follows again
    cases runs
    cases again
    exact ⟨header ▸ ready, header, .still rfl rfl rfl (List.prefix_refl _) fun _ _ => id,
      alike late.table ready knows⟩

/-- Both passes note on a node the scope that they enter. -/
theorem noting {enter enterAgain : Bind ScopeId} {entered : ScopeId → Table → Option ScopeId → Prop}
    {later : Table → Prop} (node : Node) (used : .note node.id ∈ uses)
    (echoes : Echoes plan uses surroundings table pending known enter enterAgain entered
      fun scope other after => other = scope ∧ later after) :
    Echoes plan uses surroundings table pending known
      (do
        let scope ← enter
        annotate node scope
        return scope)
      (do
        let scope ← enterAgain
        annotate node scope
        return scope)
      entered fun scope other after => other = scope ∧ later after where
  keeps := by
    refine echoes.keeps.bind fun scope after left ready _ _ holds => ?_
    exact .annotating ready used (.pure ready holds)
  echo := by
    intro early after scope sameTable sameHeader runs unmet late behind other ready header knows
      follows runsAgain
    rcases ok_of_noting runs with ⟨middle, enters, rfl⟩
    rcases ok_of_noting runsAgain with ⟨between, entersAgain, rfl⟩
    rcases echoes.echo sameTable sameHeader enters unmet ready header knows follows entersAgain with
      ⟨there, same, echoed, rfl, alike⟩
    refine ⟨there, same, ⟨echoed.evolves, ?_, echoed.log, echoed.reported⟩, rfl, alike⟩
    rcases echoed.annotated with ⟨added, annotated, annotatedAgain⟩
    refine ⟨notesOn node other ++ added, ?_, ?_⟩
    · rw [List.append_assoc, ← annotated]
    · rw [List.append_assoc, ← annotatedAgain]

/-- What comes behind a note that both passes make. -/
theorem annotating {node : Node} {scope : ScopeId} (used : .note node.id ∈ uses)
    {next nextAgain : PUnit → Bind β} {final : β → Table → Option ScopeId → Prop}
    {finish : β → β → Table → Prop} (ready : Ready (plan.setting ∅) surroundings table pending)
    (rest : Echoes plan uses surroundings table pending known (next .unit) (nextAgain .unit) final
      finish) :
    Echoes plan uses surroundings table pending known (annotate node scope >>= next)
      (annotate node scope >>= nextAgain) final finish where
  keeps := .annotating (ready.allowing uses) used rest.keeps
  echo := by
    intro early after value sameTable sameHeader runs unmet late later other ready header knows
      follows runsAgain
    rw [Binds.bind_of_ok (annotate_runs node scope early)] at runs
    rw [Binds.bind_of_ok (annotate_runs node scope late)] at runsAgain
    have begins : ({ early with annotations := notesOn node scope ++ early.annotations } :
      State).table = table := sameTable
    have readyBehind : Ready (plan.setting ∅) surroundings
      ({ late with annotations := notesOn node scope ++ late.annotations } : State).table pending :=
      ready
    rcases rest.echo begins sameHeader runs unmet readyBehind header knows follows runsAgain with
      ⟨there, same, echoed, alike⟩
    refine ⟨there, same, ⟨echoed.evolves, ?_, echoed.log, echoed.reported⟩, alike⟩
    rcases echoed.annotated with ⟨added, annotated, annotatedAgain⟩
    refine ⟨added ++ notesOn node scope, ?_, ?_⟩
    · rw [annotated, List.append_assoc]
    · rw [annotatedAgain, List.append_assoc]

/-- Both passes enter a scope and note it on a node. -/
theorem entering {enter enterAgain : Bind ScopeId}
    {entered : ScopeId → Table → Option ScopeId → Prop} {later : Table → Prop} {node : Node}
    {next nextAgain : ScopeId → Bind β}
    {final : β → Table → Option ScopeId → Prop} {finish : β → β → Table → Prop}
    (splits : Splits uses front back) (used : .note node.id ∈ front)
    (first : Echoes plan front surroundings table pending known enter enterAgain entered
      fun scope other after => other = scope ∧ later after)
    (rest : ∀ scope after left, Ready (plan.setting ∅) surroundings after left →
      table.Grows after → (left = none ∨ left = pending) → entered scope after left →
      Echoes plan back surroundings after left later (next scope) (nextAgain scope) final finish) :
    Echoes plan uses surroundings table pending known
      (do
        let scope ← enter
        annotate node scope
        next scope)
      (do
        let scope ← enterAgain
        annotate node scope
        nextAgain scope)
      final finish := by
  have echoes := Echoes.bindSame splits (first.noting node used) rest
  simpa only [bind_assoc, pure_bind] using echoes

/-- What comes behind steps that only look. -/
theorem behind {looked lookedAgain : Surroundings → Table → α → Prop} {next nextAgain : α → Bind β}
    {final : β → Table → Option ScopeId → Prop} {finish : β → β → Table → Prop}
    (ready : Ready (plan.setting ∅) surroundings table pending) (first : Reads step looked)
    (second : Reads again lookedAgain)
    (rest : ∀ value, looked surroundings table value → ∀ other,
      Echoes plan uses surroundings table pending
        (fun late => known late ∧ lookedAgain surroundings late other) (next value)
        (nextAgain other) final finish) :
    Echoes plan uses surroundings table pending known (step >>= next) (again >>= nextAgain) final
      finish := by
  refine .bind (.none uses) (.reads ready first second) ?_
  rintro value after left _ _ _ ⟨rfl, rfl, holds⟩ other
  exact rest value holds other

/-- What comes behind steps of whose answers something is known, whatever the table is. -/
theorem behindBoth {looked : Surroundings → α → Prop} {next nextAgain : α → Bind β}
    {final : β → Table → Option ScopeId → Prop} {finish : β → β → Table → Prop}
    (ready : Ready (plan.setting ∅) surroundings table pending)
    (first : Reads step fun surroundings _ => looked surroundings)
    (second : Reads again fun surroundings _ => looked surroundings)
    (rest : ∀ value other, looked surroundings value → looked surroundings other →
      Echoes plan uses surroundings table pending known (next value) (nextAgain other) final
        finish) :
    Echoes plan uses surroundings table pending known (step >>= next) (again >>= nextAgain) final
      finish :=
  .behind ready first second fun value holds other =>
    .given (rest value value holds holds).keeps (fun _ knows => ⟨knows.2, knows.1⟩)
      (rest value other holds)

/-- What comes behind the result of a computation. -/
theorem answering {outcome : Outcome α} {next nextAgain : α → Bind β}
    {final : β → Table → Option ScopeId → Prop} {finish : β → β → Table → Prop}
    (ready : Ready (plan.setting ∅) surroundings table pending)
    (rest : ∀ value, Echoes plan uses surroundings table pending known (next value) (nextAgain value)
      final finish) :
    Echoes plan uses surroundings table pending known (answer outcome >>= next)
      (answer outcome >>= nextAgain) final finish :=
  .behindBoth ready (reads_answer outcome) (reads_answer outcome) fun value _ first second =>
    Except.ok.inj (first.symm.trans second) ▸ rest value

/-- What comes behind a look at the current scope. -/
theorem currently {next nextAgain : ScopeId → Bind β} {final : β → Table → Option ScopeId → Prop}
    {finish : β → β → Table → Prop} (ready : Ready (plan.setting ∅) surroundings table pending)
    (rest : Echoes plan uses surroundings table pending known (next surroundings.current)
      (nextAgain surroundings.current) final finish) :
    Echoes plan uses surroundings table pending known (current >>= next) (current >>= nextAgain)
      final finish :=
  .behindBoth ready reads_current reads_current fun _ _ here same => here ▸ same ▸ rest

/-- What comes behind steps whose answers do not matter. -/
theorem behindAny {next nextAgain : α → Bind β} {final : β → Table → Option ScopeId → Prop}
    {finish : β → β → Table → Prop} (ready : Ready (plan.setting ∅) surroundings table pending)
    (first : Looks step) (second : Looks again)
    (rest : ∀ value other, Echoes plan uses surroundings table pending known (next value)
      (nextAgain other) final finish) :
    Echoes plan uses surroundings table pending known (step >>= next) (again >>= nextAgain) final
      finish :=
  .behindBoth ready first second fun value other _ _ => rest value other

theorem looks (ready : Ready (plan.setting ∅) surroundings table pending) (first : Looks step)
    (second : Looks again) : Recurs plan uses surroundings table pending known step again :=
  ((Echoes.reads ready first second).widen (Set.empty_subset uses)).recurs

/-- Steps that are done elsewhere. -/
theorem inScope {scope : ScopeId} (ready : Ready (plan.setting ∅) surroundings table pending)
    (isOpen : table.Open scope)
    (echoes : Echoes plan uses { surroundings with current := scope } table pending known step again
      post like) :
    Echoes plan uses surroundings table pending known (Binding.inScope scope step)
      (Binding.inScope scope again) post like where
  keeps := .inScope (ready.allowing uses) echoes.keeps
  echo := by
    intro early after value sameTable sameHeader runs unmet late later other readyLate header
      knows follows runsAgain
    have evolves := (echoes.keeps.ends sameTable sameHeader runs).2.1
    have within := readyLate.elsewhere (follows.grows.isOpen (evolves.grows.isOpen isOpen))
    rcases echoes.echo sameTable sameHeader runs unmet within header knows follows runsAgain
      with ⟨there, same, echoed, alike⟩
    exact ⟨readyLate.grows there.formed echoed.evolves.grows, same, echoed, alike⟩

theorem discard (echoes : Echoes plan uses surroundings table pending known step again post like) :
    Recurs plan uses surroundings table pending known (Functor.discard step)
      (Functor.discard again) := by
  have ran : ∀ {step : Bind α} {state after : State} {nothing : PUnit},
      Functor.discard step surroundings state = .ok nothing after →
        ∃ value, step surroundings state = .ok value after := by
    intro step state after nothing runs
    change EStateM.map (fun _ => PUnit.unit) (step surroundings) state = _ at runs
    unfold EStateM.map at runs
    cases result : step surroundings state with
    | error error middle => rw [result] at runs; cases runs
    | ok value middle => rw [result] at runs; cases runs; exact ⟨value, rfl⟩
  constructor
  · exact .discard echoes.keeps fun _ _ _ _ => trivial
  · intro early after value sameTable sameHeader runs unmet late later other ready header knows
      follows runsAgain
    rcases ran runs with ⟨value, runs⟩
    rcases ran runsAgain with ⟨other, runsAgain⟩
    rcases echoes.echo sameTable sameHeader runs unmet ready header knows follows runsAgain
      with ⟨there, same, echoed, _⟩
    exact ⟨there, same, echoed, trivial⟩

end Echoes

end

/-! ## Loops -/

/-- Some steps, one for each of some nodes. -/
theorem recurs_visits {items : List Node} {step again : Node → Bind PUnit}
    (ready : Ready (plan.setting ∅) surroundings table pending)
    (distinct : ((Tree.parts items).map Tree.id).Nodup)
    (all : ∀ item ∈ items, ∀ {later left}, table.Grows later → (left = none ∨ left = pending) →
      Ready (plan.setting ∅) surroundings later left →
      Recurs plan (usesOf item.preorder) surroundings later left (fun _ => True) (step item)
        (again item)) :
    Recurs plan (usesOf (Tree.parts items)) surroundings table pending (fun _ => True)
      (items.forM step) (items.forM again) := by
  induction items generalizing table pending with
  | nil => exact .pure ready trivial fun _ _ _ => trivial
  | cons first rest ih =>
    rw [Tree.parts_cons] at distinct ⊢
    have distinctBehind : ((Tree.parts rest).map Tree.id).Nodup :=
      distinct.sublist ((List.sublist_append_right ..).map _)
    refine .bind (.ofParts (.refl _) distinct)
      (all first (List.mem_cons_self ..) (.refl table) (.inr rfl) ready) ?_
    intro _ after left ready grows header _ _
    refine ih ready distinctBehind ?_
    intro item member later next growsOn headerBehind
    exact all item (List.mem_cons_of_mem _ member) (grows.trans growsOn)
      (headerBehind.elim .inl fun same => same ▸ header)

/-- Some steps with a result that is passed on, and that does not matter. -/
theorem recurs_foldlM {β : Type} {items : List Node} {step : β → Node → Bind β}
    (ready : Ready (plan.setting ∅) surroundings table pending)
    (distinct : ((Tree.parts items).map Tree.id).Nodup)
    (all : ∀ item ∈ items, ∀ {value other later left},
      Ready (plan.setting ∅) surroundings later left →
      Recurs plan (usesOf item.preorder) surroundings later left (fun _ => True) (step value item)
        (step other item)) (initial other : β) :
    Recurs plan (usesOf (Tree.parts items)) surroundings table pending (fun _ => True)
      (items.foldlM step initial) (items.foldlM step other) := by
  induction items generalizing table pending initial other with
  | nil => exact .pure ready trivial fun _ _ _ => trivial
  | cons first rest ih =>
    rw [Tree.parts_cons] at distinct ⊢
    rw [List.foldlM_cons, List.foldlM_cons]
    refine .bind (.ofParts (.refl _) distinct) (all first (List.mem_cons_self ..) ready) ?_
    intro value after left ready _ _ _ valueAgain
    exact ih ready (distinct.sublist ((List.sublist_append_right ..).map _))
      (fun item member => all item (List.mem_cons_of_mem _ member)) value valueAgain

end Binding
end CppNames
