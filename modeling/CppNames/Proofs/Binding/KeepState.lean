import CppNames.Proofs.Binding.Keep

namespace CppNames

open Table

/-- A declaration of something that can have a scope is merged with its like only. -/
theorem Table.body_of_merge {id : SymbolId} {old new : Symbol} {shape : Region.Shape}
    (merges : relation id old new = .merge) (body : new.kind.family.body? = some shape) :
    old.kind.family.body? = some shape := by
  have apart : ∀ {first second : Bool}, ¬ (if first = true then Relation.coexist
      else if second = true then .coexist else .conflict) = .merge := by
    intro first second
    cases first <;> cases second <;> simp
  unfold relation at merges
  dsimp only at merges
  split at merges
  case h_16 => exact absurd merges apart
  case h_1 oldIs newIs | h_2 oldIs newIs | h_3 oldIs newIs | h_6 oldIs newIs | h_7 oldIs newIs =>
    rw [newIs] at body
    rw [oldIs]
    exact body
  case h_4 | h_5 | h_8 => cases merges
  -- the other kinds that merge have no scope
  all_goals
    rename_i newIs
    rw [newIs] at body
    cases body

namespace Binding

/-!
# What binding does with tables, step by step

These are the steps of which the binding of every construct is put together: to enter a scope,
to declare a name, and to find the scope that the qualifier of a declared name denotes.
-/

variable {setting : Setting} {surroundings : Surroundings} {table : Table}
  {pending : Option ScopeId}

/-! ## Headers and scopes -/

theorem Formed.taken (formed : Formed setting pending table) : Formed setting none table where
  consistent := formed.consistent
  root := formed.root
  notes := formed.notes
  older := formed.older
  headers := formed.headers
  headed _ impossible := nomatch impossible
  budding first := by
    have budding := formed.budding first
    exact ⟨budding.ranked, budding.isHeader, fun header which => budding.childless header
      (which.imp_right nofun), fun _ _ => nofun⟩
  housed first := by
    have housed := formed.housed first
    exact ⟨housed.members, fun header which => housed.headers header (which.imp_right nofun),
      fun _ _ => nofun⟩

theorem keeps_takeHeader (ready : Ready setting surroundings table pending) :
    Keeps setting surroundings table pending takeHeader fun header after left =>
      header = pending ∧ table = after ∧ left = none := by
  rintro state rfl rfl
  exact ⟨ready.grows ready.formed.taken (.refl _), .refl _, .inl rfl, Adds.of_same rfl (.refl _), rfl,
    rfl, rfl⟩

/-- A region as it is when a scope is made for it. -/
structure IsFresh (table : Table) (region : Region) : Prop where
  nominated : region.nominated = []
  bases : region.bases = []
  parameters : ∀ inside ∈ region.parameters?, table.HasScope inside

theorem IsFresh.consistentIn {region : Region} (fresh : IsFresh table region)
    (outer : Option ScopeId) (id : ScopeId) :
    (Scope.ofRegion region outer).ConsistentIn table id where
  names := List.nodup_nil
  symbols binding member := absurd member List.not_mem_nil
  nominated := by
    change region.nominated.Nodup ∧ ∀ target ∈ region.nominated, _
    rw [fresh.nominated]
    exact ⟨List.nodup_nil, fun target member => absurd member List.not_mem_nil⟩
  bases := by
    change region.bases.Nodup ∧ ∀ base ∈ region.bases, _
    rw [fresh.bases]
    exact ⟨List.nodup_nil, fun base member => absurd member List.not_mem_nil⟩
  parameters := fresh.parameters

/-- The scope that a node has, of a shape that the node asks for. -/
def HasNoted (setting : Setting) (table : Table) (node : Tree.NodeId) (id : ScopeId) : Prop :=
  ∃ shape, table.HasShape id shape ∧ (setting.content node).Bears node shape

theorem createScope_runs {state : State} {region : Region} {outer : ScopeId} {node : Tree.NodeId}
    (inside : state.table.HasScope outer) :
    createScope region outer node surroundings state = .ok state.table.nextScope
      { state with table := (state.table.createScope region (some outer) (some node)).1 } := by
  have created := createScope_of_hasScope region inside node
  have runs : createScope region outer node surroundings state = (do
      change fun _ => (state.table.createScope region (some outer) (some node)).1
      answer (state.table.createScope region (some outer) (some node)).2 : Bind ScopeId)
        surroundings state := rfl
  rw [runs, created]
  rfl

/-- A scope where something may be entered for a node: in a first pass, it leads out, or the node
stands inside a function. -/
def Houses (setting : Setting) (table : Table) (outer : ScopeId) (node : Tree.NodeId) : Prop :=
  setting.first = true → table.LeadsOut setting.inner outer ∨ node ∈ setting.inner

/-- Where binding is, something may be entered for any node that is bound. -/
theorem Ready.houses (ready : Ready setting surroundings table pending) {node : Tree.NodeId}
    (inside : setting.inside → node ∈ setting.inner) :
    Houses setting table surroundings.current node := by
  intro first
  by_cases stands : setting.inside
  · exact .inr (inside stands)
  · exact .inl (.members (ready.outermost ⟨first, stands⟩))

/-- A new header leads out if what it is entered into does. -/
theorem leadsOut_createScope {region : Region} {outer : ScopeId} (inside : table.HasScope outer)
    {node : Tree.NodeId} {inner : Set Tree.NodeId}
    (leads : table.LeadsOut inner outer ∨ node ∈ inner) {declaration : Tree.NodeId}
    (isHeader : region.shape = .header declaration) :
    (table.createScope region (some outer) (some node)).1.LeadsOut inner table.nextScope := by
  have has : (table.createScope region (some outer) (some node)).1.HasShape table.nextScope
      (.header declaration) := isHeader ▸ hasShape_createScope region inside node
  have notes := nodeScopes_createScope region inside node
  rcases leads with leads | member
  · have step : (table.createScope region (some outer) (some node)).1.Around table.nextScope outer :=
      (around_createScope region inside node _ _).mpr (.inl ⟨rfl, rfl⟩)
    refine .header has step (leads.transport (fun _ => True)
      (grows_createScope region _ node) ?_ ?_ trivial)
    · rw [notes]
      exact List.subset_cons_self ..
    · intro id around _ step
      refine ⟨(around_createScope region inside node id around).mpr (.inr ⟨?_, step⟩), trivial⟩
      exact ne_nextScope step.hasScope
  · refine .inside has ⟨node, member, ?_⟩
    rw [notes]
    exact List.mem_cons_self ..

/-- A new scope is entered for a node. -/
theorem keeps_createScope (ready : Ready setting surroundings table pending) {region : Region}
    {outer : ScopeId} {node : Tree.NodeId} (inside : table.HasScope outer)
    (fresh : IsFresh table region)
    (bears : (setting.content node).Bears node region.shape) (allowed : node ∈ setting.noted)
    (outside : Outside setting pending outer)
    (houses : region.shape = .namespaceBody ∨ region.shape = .classBody →
      Houses setting table outer node) :
    Keeps setting surroundings table pending (createScope region outer node)
      fun id after left => pending = left ∧ after.HasShape id region.shape ∧
        ¬ table.HasScope id ∧ Childless after id ∧
        (∀ declaration, region.shape = .header declaration → Houses setting table outer node →
          setting.first = true → after.LeadsOut setting.inner id) ∧
        ∀ symbol, after.symbol symbol = table.symbol symbol := by
  rintro state rfl rfl
  have form := ready.formed.createScope inside (fresh.consistentIn _ _) bears allowed outside
    fun first members => houses members first
  rw [createScope_runs inside]
  refine ⟨ready.grows form.1 form.2.grows, form.2, .inr rfl, Adds.of_same rfl (.refl _),
    rfl, ?_, ?_, ?_, ?_, ?_⟩
  · exact hasShape_createScope region inside node
  · exact fun there => ne_nextScope there rfl
  · exact childless_createScope region inside node
  · exact fun declaration isHeader houses first =>
      leadsOut_createScope inside (houses first) isHeader
  · exact fun symbol => symbol_createScope ..

theorem Formed.hasNoted (formed : Formed setting pending table) {node : Tree.NodeId} {id : ScopeId}
    (noted : table.scopeOfNode? node = some id) : HasNoted setting table node id := by
  unfold Table.scopeOfNode? at noted
  rcases Option.map_eq_some_iff.mp noted with ⟨note, found, rfl⟩
  have same : note.1 = node := by simpa using List.find?_some found
  rcases formed.notes note (List.mem_of_find?_eq_some found) with ⟨shape, has, bears⟩
  exact ⟨shape, has, same ▸ bears⟩

/-- The scope of a node is the one noted for it, or a new one. -/
theorem keeps_scopeFor (ready : Ready setting surroundings table pending) {region : Region}
    {outer : ScopeId} {node : Tree.NodeId} (inside : table.HasScope outer)
    (fresh : IsFresh table region)
    (bears : (setting.content node).Bears node region.shape) (allowed : node ∈ setting.noted)
    (outside : Outside setting pending outer)
    (houses : region.shape = .namespaceBody ∨ region.shape = .classBody →
      Houses setting table outer node) :
    Keeps setting surroundings table pending (scopeFor node outer region) fun id after left =>
      pending = left ∧ HasNoted setting after node id ∧
        (table.scopeOfNode? node = none → ¬ table.HasScope id ∧ Childless after id ∧
          ∀ declaration, region.shape = .header declaration → Houses setting table outer node →
            setting.first = true → after.LeadsOut setting.inner id) := by
  refine .behind ready reads_get fun now same => ?_
  rw [same]
  cases noted : table.scopeOfNode? node with
  | some scope => exact .pure ready ⟨rfl, ready.formed.hasNoted noted, nofun⟩
  | none =>
    refine (keeps_createScope ready inside fresh bears allowed outside houses).weaken ?_
    rintro id after left ⟨header, has, new, empty, leads, _⟩
    exact ⟨header, ⟨region.shape, has, bears⟩, fun _ => ⟨new, empty, leads⟩⟩

/-! ## Symbols -/

/-- A symbol that may have a scope of a given shape. -/
def MayHave (table : Table) (id : SymbolId) (shape : Region.Shape) : Prop :=
  ∃ symbol, table.symbol id = .ok symbol ∧ symbol.kind.family.body? = some shape

theorem MayHave.grows {before after : Table} {id : SymbolId} {shape : Region.Shape}
    (may : MayHave before id shape) (grows : before.Grows after) : MayHave after id shape := by
  rcases may with ⟨symbol, read, body⟩
  rcases grows.symbol id symbol read with ⟨later, readLater, grown⟩
  exact ⟨later, readLater, grown.resembles.1 ▸ body⟩

/-- A class or a function gets its scope. -/
theorem keeps_setDefines (ready : Ready setting surroundings table pending) {id : SymbolId}
    {scope : ScopeId} {shape : Region.Shape} (may : MayHave table id shape)
    (has : table.HasShape scope shape) (other : shape ≠ .namespaceBody) :
    Keeps setting surroundings table pending (setDefines id scope) fun _ _ left =>
      pending = left := by
  refine (keeps_change ready (ready.formed.setDefines has fun symbol read => ?_)).weaken
    fun _ _ _ same => same.2
  rcases may with ⟨found, again, body⟩
  rw [read] at again
  cases again
  refine ⟨body, fun isNamespace => ?_⟩
  rw [isNamespace] at body
  cases body
  exact absurd rfl other

/-- What a declaration declares may have the scope that its family asks for. -/
theorem Declares.mayHave {after : Table} {scope : ScopeId} {symbol : Symbol}
    {id : SymbolId} (done : table.Declares scope symbol after (.ok id)) {shape : Region.Shape}
    (body : symbol.kind.family.body? = some shape) : MayHave after id shape := by
  cases done with
  | fresh found read judged => exact ⟨symbol, (symbol_withSymbol ..).trans (if_pos rfl), body⟩
  | again found id read judged =>
    rcases of_judge_again judged with ⟨_, old, readOld, merges⟩
    refine ⟨merged old symbol, ?_, ?_⟩
    · rw [symbol_modifySymbol, if_pos rfl, readOld]
      rfl
    · rw [← (resembles_merged old symbol).1]
      exact body_of_merge merges body

theorem keeps_performDeclare (ready : Ready setting surroundings table pending)
    {name type : Encoding} {kind : SymbolKind} {scope : ScopeId} {node : Tree.NodeId}
    {span : Option Span} (allowed : node ∈ setting.declaring)
    (aliased : ∀ target, kind = .typedefName (some target) → table.HasSymbol target) :
    Keeps setting surroundings table pending
      (perform (·.declare scope (.ofDeclaration name kind type scope node span)))
      fun declared after left => pending = left ∧
        table.Declares scope (.ofDeclaration name kind type scope node span) after declared := by
  refine (keeps_perform ready fun after declared done => ?_).weaken
    fun declared after _ done => ⟨done.2, declares_of_declare done.1⟩
  have does := declares_of_declare done
  exact ready.formed.declares (by rfl) rfl rfl allowed aliased does

/-- What a declaration answers may have a scope of the shape that is asked for. -/
def Answers (shape? : Option Region.Shape) (table : Table) (id : Option SymbolId) : Prop :=
  ∀ known, id = some known → ∀ shape, shape? = some shape → MayHave table known shape

theorem Answers.none {shape? : Option Region.Shape} : Answers shape? table Option.none := nofun

theorem Answers.grows {before after : Table} {shape? : Option Region.Shape} {id : Option SymbolId}
    (answers : Answers shape? before id) (grows : before.Grows after) :
    Answers shape? after id :=
  fun known same shape body => (answers known same shape body).grows grows

theorem keeps_declare (ready : Ready setting surroundings table pending) {name type : Encoding}
    {kind : SymbolKind} {scope : ScopeId} {node : Tree.NodeId} {span : Option Span}
    (allowed : node ∈ setting.declaring)
    (aliased : ∀ target, kind = .typedefName (some target) → table.HasSymbol target) :
    Keeps setting surroundings table pending
      (declare scope (.ofDeclaration name kind type scope node span)) fun id after left =>
        pending = left ∧ Answers kind.family.body? after id := by
  refine .behind ready (looks_answer _) fun text _ => ?_
  refine (keeps_performDeclare ready allowed aliased).bind ?_
  rintro declared after left ready _ _ ⟨rfl, done⟩
  cases declared with
  | ok id =>
    refine .pure ready ⟨rfl, ?_⟩
    rintro known same shape body
    cases same
    exact Declares.mayHave done body
  | error refusal =>
    exact .behind ready (looks_reportRefusal _ _ _) fun _ _ => .pure ready ⟨rfl, .none⟩

theorem keeps_declareQuietly (ready : Ready setting surroundings table pending)
    {name type : Encoding} {kind : SymbolKind} {scope : ScopeId} {node : Tree.NodeId}
    {span : Option Span} (allowed : node ∈ setting.declaring)
    (aliased : ∀ target, kind = .typedefName (some target) → table.HasSymbol target) :
    Keeps setting surroundings table pending
      (declareQuietly scope (.ofDeclaration name kind type scope node span)) fun _ _ left =>
        pending = left :=
  .discard (keeps_declare ready allowed aliased) fun _ _ _ done => done.1

/-! ## Qualified names -/

/-- The qualifier of a declared name denotes a namespace or a class. -/
theorem reads_declarationTarget (name : Encoding) (span : Option Span) :
    Reads (declarationTarget name span) fun _ table target =>
      ∀ {setting pending}, Formed setting pending table →
        ∀ found, target = some found → table.HasMembers found.1 := by
  refine .after (looks_answer _) fun components => ?_
  cases components.getLast? with
  | none => exact .pure fun _ _ _ _ _ => nofun
  | some last =>
    refine .after reads_current.looks fun scope => (reads_ask _).bind fun found => ?_
    cases found with
    | error error =>
      exact .after (looks_reportLookup _ _) fun _ => .pure fun _ _ _ _ _ _ => nofun
    | ok target =>
      cases target with
      | none => exact .pure fun _ _ _ _ _ _ => nofun
      | some target =>
        refine .pure fun surroundings table asked setting pending formed => ?_
        rintro found same
        cases same
        exact formed.consistent.hasMembers_of_lookupScope formed.root asked

theorem body_memberKind {found : SymbolSet} {kind answer : SymbolKind}
    (asked : memberKind table found kind = .ok answer) :
    answer.family.body? = kind.family.body? ∧
      ∀ target, answer = .typedefName target → kind = .typedefName target := by
  unfold memberKind at asked
  split at asked
  · rcases Outcome.of_bind asked with ⟨templates, _, same⟩
    split at same <;> cases same <;> exact ⟨rfl, nofun⟩
  · cases asked
    exact ⟨rfl, fun target same => same⟩

theorem signature?_memberKind {found : SymbolSet} {kind answer : SymbolKind}
    (asked : memberKind table found kind = .ok answer) : answer.signature? = kind.signature? := by
  unfold memberKind at asked
  split at asked
  · rcases Outcome.of_bind asked with ⟨templates, _, same⟩
    split at same <;> cases same <;> rfl
  · cases asked
    rfl

theorem keeps_declareMember (ready : Ready setting surroundings table pending)
    {name last type : Encoding} {kind : SymbolKind} {scope : ScopeId} {node : Tree.NodeId}
    {span : Option Span} (allowed : node ∈ setting.declaring)
    (plain : ∀ target, kind ≠ .typedefName target) :
    Keeps setting surroundings table pending (declareMember name scope last kind type node span)
      fun id after left => pending = left ∧ Answers kind.family.body? after id := by
  refine .behind ready (looks_answer _) fun key _ => .behind ready (looks_ask _) fun found _ =>
    .behind ready (looks_answer _) fun text _ => ?_
  split
  · exact .behind ready (looks_report _ _ _) fun _ _ => .pure ready ⟨rfl, .none⟩
  · refine .behind ready (reads_ask _) fun kind' asked => ?_
    rcases body_memberKind asked with ⟨body, same⟩
    refine .behind ready reads_get fun before _ => ?_
    refine (keeps_declare ready allowed fun target is => absurd (same _ is) (plain _)).bind ?_
    rintro id after left ready _ _ ⟨rfl, answers⟩
    rw [body] at answers
    refine .behind ready reads_get fun behind _ => ?_
    dsimp only
    split
    · exact .behind ready (looks_report _ _ _) fun _ _ => .pure ready ⟨rfl, answers⟩
    · exact .pure ready ⟨rfl, answers⟩

/-- What a named declarator declares, and the scope that it goes into. -/
theorem keeps_declareNamed (ready : Ready setting surroundings table pending)
    {name type : Encoding} {kind : SymbolKind} {node : Tree.NodeId} {span : Option Span}
    (allowed : node ∈ setting.declaring) (plain : ∀ target, kind ≠ .typedefName target) :
    Keeps setting surroundings table pending (declareNamed name kind type node span)
      fun answer after left => pending = left ∧ Answers kind.family.body? after answer.1 ∧
        after.Open answer.2 := by
  refine .behind ready reads_current fun scope here => ?_
  rw [here]
  split
  · refine .behind ready (reads_declarationTarget name span) fun target denotes => ?_
    cases target with
    | none => exact .pure ready ⟨rfl, .none, ready.current⟩
    | some found =>
      have isOpen := (denotes ready.formed found rfl).isOpen
      refine (keeps_declareMember ready allowed plain).bind ?_
      rintro id after left ready evolves _ ⟨rfl, answers⟩
      exact .pure ready ⟨rfl, answers, evolves.grows.isOpen isOpen⟩
  · refine (keeps_declare ready allowed fun target is => absurd is (plain _)).bind ?_
    rintro id after left ready _ _ ⟨rfl, answers⟩
    exact .pure ready ⟨rfl, answers, ready.current⟩

end Binding
end CppNames
