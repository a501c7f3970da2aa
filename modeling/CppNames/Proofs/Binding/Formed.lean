import CppNames.Binding.State
import CppNames.Proofs.Lookup.Found

namespace CppNames

/-!
# Tables in the course of binding

While a tree is bound, more holds of a table than that its parts agree.  The scope noted for a
node is of the kind that the node asks for.  A scope that is no template header is younger than
the scope around it, since only headers are ever moved.

That headers are moved is why the scopes of a table need not form a forest.  They do as long as
every header that is moved has nothing inside it, and in a first pass over a tree this is so: a
header is moved, if at all, before anything is entered into it.  `Budding` keeps the headers in
sight that may still be moved.
-/

open Table

/-- The shapes that the scope of a node may have, by what the node spells. -/
def Construct.Bears (label : Tree.NodeId) : Construct → Region.Shape → Prop
  | .namespaceSpec, shape => shape = .namespaceBody
  | .classSpec, shape => shape = .classBody
  | .declarator, shape => shape = .prototype
  | .declaration, shape => shape = .functionBody
  | .templateDecl, shape => shape = .header label
  | .block, shape => shape = .functionBody ∨ shape = .block
  | .forStatement, shape => shape = .block
  | _, _ => False

theorem of_bears_header {label declaration : Tree.NodeId} {construct : Construct}
    (bears : construct.Bears label (.header declaration)) :
    construct = .templateDecl ∧ label = declaration := by
  cases construct <;> cases bears <;> first | exact ⟨rfl, rfl⟩ | contradiction

namespace Binding

/-- In which setting trees are bound. -/
structure Setting where
  /-- What the nodes spell. -/
  content : Tree.NodeId → Construct
  /-- Whether the tree is bound for the first time. -/
  first : Bool
  /-- Headers that were taken and may still be moved. -/
  held : List ScopeId
  /-- The nodes for which scopes may be noted. -/
  noted : Set Tree.NodeId
  /-- The nodes that may declare something. -/
  declaring : Set Tree.NodeId
  /-- Whether using-declarations may make symbols visible in further scopes. -/
  aliasing : Prop
  /-- The nodes that stand inside functions. -/
  inner : Set Tree.NodeId
  /-- Whether all nodes that are bound stand inside a function. -/
  inside : Prop
  /-- Headers that were taken and stay where they are. -/
  settled : Set ScopeId

/-- A table without circles: the way outwards leads down in some ranking of the scopes. -/
def Ranked (table : Table) : Prop :=
  ∃ rank : ScopeId → Nat, ∀ inner outer, table.Around inner outer → rank outer < rank inner

/-- A scope without scopes inside it. -/
def Childless (table : Table) (id : ScopeId) : Prop :=
  ∀ scope, table.scope id = .ok scope → scope.nested = []

/-- Nothing lies directly inside a scope without scopes inside it. -/
theorem Childless.not_around {table : Table} {outer : ScopeId} (childless : Childless table outer)
    (nests : table.Nests) (inside : table.HasScope outer) (id : ScopeId) :
    ¬ table.Around id outer := by
  rintro ⟨inner, read, around⟩
  rcases scope_of_hasScope inside with ⟨found, readOuter⟩
  have listed := nests.once outer found id inner readOuter read
  rw [if_pos around, childless found readOuter] at listed
  cases listed

/-- The scope of a template header. -/
def IsHeader (table : Table) (id : ScopeId) : Prop :=
  ∃ declaration, table.HasShape id (.header declaration)

theorem IsHeader.grows {before after : Table} {id : ScopeId} (isHeader : IsHeader before id)
    (grows : before.Grows after) : IsHeader after id :=
  isHeader.imp fun _ has => grows.hasShape has

/-- A table without circles in which the headers that may still be moved have nothing inside:
those that are held, and the one whose declaration comes next. -/
structure Budding (held : List ScopeId) (pending : Option ScopeId) (table : Table) : Prop where
  ranked : Ranked table
  isHeader : ∀ header ∈ held, IsHeader table header
  childless : ∀ header, header ∈ held ∨ pending = some header → Childless table header
  apart : ∀ header ∈ held, pending ≠ some header

/-- A table that is bound in a setting. -/
structure Formed (setting : Setting) (pending : Option ScopeId) (table : Table) : Prop where
  consistent : table.Consistent
  root : table.HasShape global .namespaceBody
  notes : ∀ note ∈ table.nodeScopes,
    ∃ shape, table.HasShape note.2 shape ∧ (setting.content note.1).Bears note.1 shape
  older : ∀ id scope outer, table.scope id = .ok scope → scope.outer = some outer →
    scope.region.shape.isHeader = false → outer.index < id.index
  headers : ∀ id declaration, table.HasShape id (.header declaration) →
    setting.content declaration = .templateDecl
  headed : ∀ header, pending = some header → IsHeader table header
  budding : setting.first = true → Budding setting.held pending table
  housed : setting.first = true → table.Housed setting.inner setting.settled pending

/-- A scope shows a symbol under a name. -/
def Shows (table : Table) (scope : ScopeId) (name : Encoding) (id : SymbolId) : Prop :=
  ∃ found, table.scope scope = .ok found ∧ id ∈ found.named name

/-- The nodes that declare a symbol, in order.  No node declares what is not there. -/
def declarers (table : Table) (id : SymbolId) : List Tree.NodeId :=
  match table.symbol id with
  | .ok symbol => symbol.declarations
  | .error _ => []

theorem declarers_of_symbol {table : Table} {id : SymbolId} {symbol : Symbol}
    (read : table.symbol id = .ok symbol) : declarers table id = symbol.declarations := by
  unfold declarers
  rw [read]

theorem declarers_of_not_hasSymbol {table : Table} {id : SymbolId}
    (absent : ¬ table.HasSymbol id) : declarers table id = [] := by
  unfold declarers
  cases read : table.symbol id with
  | ok symbol => exact absurd (hasSymbol_of_symbol read) absent
  | error fault => rfl

/-- What binding may do to a table: enter more, note scopes for some nodes only, and let some
nodes only declare something.  Scopes are made for the nodes for which they are noted.  What a
scope shows in addition is new, unless using-declarations make it visible. -/
structure Evolves (setting : Setting) (before after : Table) : Prop where
  grows : before.Grows after
  scopes : ∀ id, after.HasScope id → before.HasScope id ∨ setting.noted.Nonempty
  notes : ∀ label, label ∉ setting.noted → after.scopeOfNode? label = before.scopeOfNode? label
  declared : ∀ id, ∃ added, declarers after id = declarers before id ++ added ∧
    ∀ label ∈ added, label ∈ setting.declaring
  entered : ∀ id, after.HasSymbol id → before.HasSymbol id ∨ declarers after id ≠ []
  shown : ∀ scope name id, Shows after scope name id →
    Shows before scope name id ∨ ¬ before.HasSymbol id ∨ setting.aliasing
  ways : setting.first = true → KeepsWays setting.settled before after

variable {setting : Setting} {pending : Option ScopeId} {table before middle after : Table}

theorem declared_of_same (same : ∀ id, declarers after id = declarers before id)
    (id : SymbolId) : ∃ added, declarers after id = declarers before id ++ added ∧
      ∀ label ∈ added, label ∈ setting.declaring :=
  ⟨[], (same id).trans (List.append_nil _).symm, fun _ member => absurd member List.not_mem_nil⟩

theorem Evolves.refl (table : Table) : Evolves setting table table where
  grows := .refl table
  scopes _ there := .inl there
  notes _ _ := rfl
  declared := declared_of_same fun _ => rfl
  entered _ there := .inl there
  shown _ _ _ shows := .inl shows
  ways _ := .refl table

theorem Evolves.trans (front : Evolves setting before middle)
    (back : Evolves setting middle after) : Evolves setting before after where
  grows := front.grows.trans back.grows
  scopes id there := (back.scopes id there).elim (front.scopes id) .inr
  notes label other := (back.notes label other).trans (front.notes label other)
  declared id := by
    rcases front.declared id with ⟨first, sameFirst, allowedFirst⟩
    rcases back.declared id with ⟨second, sameSecond, allowedSecond⟩
    refine ⟨first ++ second, ?_, List.forall_mem_append.mpr ⟨allowedFirst, allowedSecond⟩⟩
    rw [sameSecond, sameFirst, List.append_assoc]
  entered id there := by
    rcases back.entered id there with between | new
    · rcases front.entered id between with old | declared
      · exact .inl old
      · rcases back.declared id with ⟨second, same, _⟩
        exact .inr fun none => declared (List.append_eq_nil_iff.mp (same.symm.trans none)).1
    · exact .inr new
  shown scope name id shows := by
    rcases back.shown scope name id shows with old | absent | aliases
    · exact front.shown scope name id old
    · exact .inr (.inl fun there => absent (front.grows.hasSymbol there))
    · exact .inr (.inr aliases)
  ways first := (front.ways first).trans front.grows (back.ways first)

/-! ## Operations that leave the places of scopes alone -/

/-- The links between scopes. -/
def links (table : Table) (id : ScopeId) : Outcome (Option ScopeId × List ScopeId) :=
  (table.scope id).map fun scope => (scope.outer, scope.nested)

theorem read_of_links (same : ∀ id, links after id = links before id) {id : ScopeId}
    {scope : Scope} (read : after.scope id = .ok scope) :
    ∃ old, before.scope id = .ok old ∧ scope.outer = old.outer ∧ scope.nested = old.nested := by
  have linked : links before id = .ok (scope.outer, scope.nested) := by
    rw [← same id, links, read]
    rfl
  rcases Outcome.of_map linked with ⟨old, found, both⟩
  exact ⟨old, found, (congrArg Prod.fst both).symm, (congrArg Prod.snd both).symm⟩

theorem around_of_links (same : ∀ id, links after id = links before id) {inner outer : ScopeId}
    (step : after.Around inner outer) : before.Around inner outer := by
  rcases step with ⟨scope, read, around⟩
  rcases read_of_links same read with ⟨old, before, outers, _⟩
  exact ⟨old, before, outers ▸ around⟩

theorem Budding.of_links {held : List ScopeId} (budding : Budding held pending before)
    (grows : before.Grows after) (same : ∀ id, links after id = links before id) :
    Budding held pending after where
  ranked := by
    rcases budding.ranked with ⟨rank, descends⟩
    exact ⟨rank, fun inner outer step => descends inner outer (around_of_links same step)⟩
  isHeader header member := (budding.isHeader header member).grows grows
  childless header which scope read := by
    rcases read_of_links same read with ⟨old, readOld, _, nested⟩
    exact nested.trans (budding.childless header which old readOld)
  apart := budding.apart

theorem hasShape_of_links (grows : before.Grows after)
    (same : ∀ id, links after id = links before id) {id : ScopeId} {shape : Region.Shape}
    (has : after.HasShape id shape) : before.HasShape id shape := by
  rcases has with ⟨scope, read, is⟩
  rcases read_of_links same read with ⟨old, readOld, _⟩
  rcases grows.scope id old readOld with ⟨later, readLater, sameShape, _⟩
  rw [read] at readLater
  cases readLater
  exact ⟨old, readOld, sameShape.symm.trans is⟩

theorem housed_of_links {inner : Set Tree.NodeId} {settled : Set ScopeId}
    (housed : before.Housed inner settled pending) (grows : before.Grows after)
    (same : ∀ id, links after id = links before id)
    (notes : before.nodeScopes ⊆ after.nodeScopes) : after.Housed inner settled pending := by
  refine housed.transport (fun _ => True) grows notes ?_ ?_ fun _ _ => trivial
  · exact fun id outer _ step => ⟨around_of_links (fun id => (same id).symm) step, trivial⟩
  · intro id outer has step
    have had : before.HasMembers id :=
      has.imp (hasShape_of_links grows same) (hasShape_of_links grows same)
    exact .inl ⟨had, around_of_links same step, trivial⟩

/-- An operation that moves no scope and notes none keeps the table in form. -/
theorem Formed.of_links (formed : Formed setting pending before) (consistent : after.Consistent)
    (grows : before.Grows after) (same : ∀ id, links after id = links before id)
    (notes : after.nodeScopes = before.nodeScopes) : Formed setting pending after where
  consistent := consistent
  root := grows.hasShape formed.root
  notes note member := by
    rcases formed.notes note (notes ▸ member) with ⟨shape, has, bears⟩
    exact ⟨shape, grows.hasShape has, bears⟩
  older id scope outer read around plain := by
    rcases read_of_links same read with ⟨old, readOld, outers, _⟩
    rcases grows.scope id old readOld with ⟨later, readLater, shape, _⟩
    rw [read] at readLater
    cases readLater
    exact formed.older id old outer readOld (outers ▸ around) (shape ▸ plain)
  headers id declaration has :=
    formed.headers id declaration (hasShape_of_links grows same has)
  headed header is := (formed.headed header is).grows grows
  budding first := (formed.budding first).of_links grows same
  housed first := housed_of_links (formed.housed first) grows same (notes ▸ List.Subset.refl _)

theorem keepsWays_of_links {settled : Set ScopeId} (same : ∀ id, links after id = links before id) :
    KeepsWays settled before after :=
  .of_around fun _ _ step => around_of_links (fun id => (same id).symm) step

theorem links_modifyScope (target : ScopeId) {change : Scope → Scope}
    (kept : ∀ scope, (change scope).outer = scope.outer ∧ (change scope).nested = scope.nested)
    (id : ScopeId) : links (table.modifyScope target change) id = links table id := by
  unfold links
  rw [scope_modifyScope]
  split
  · cases table.scope id with
    | error fault => rfl
    | ok scope => exact congrArg Except.ok (Prod.ext (kept scope).1 (kept scope).2)
  · rfl

/-- An operation on the names or the region of one scope. -/
theorem evolves_modifyScope (target : ScopeId) {change : Scope → Scope}
    (kept : ∀ scope, (change scope).outer = scope.outer ∧ (change scope).nested = scope.nested)
    (grows : table.Grows (table.modifyScope target change))
    (names : ∀ scope name id, id ∈ (change scope).named name →
      id ∈ scope.named name ∨ ¬ table.HasSymbol id ∨ setting.aliasing) :
    Evolves setting table (table.modifyScope target change) where
  grows := grows
  scopes _ there := .inl ((hasScope_modifyScope target change _).mp there)
  notes _ _ := rfl
  declared := declared_of_same fun _ => rfl
  entered _ there := .inl there
  shown scope name id shows := by
    rcases shows with ⟨found, read, member⟩
    rcases of_scope_modifyScope read with ⟨old, before, rfl | ⟨rfl, rfl⟩⟩
    · exact .inl ⟨found, before, member⟩
    · exact (names old name id member).imp_left fun there => ⟨old, before, there⟩
  ways _ := keepsWays_of_links (links_modifyScope target kept)

theorem Formed.makeVisible (formed : Formed setting pending table) {scope : ScopeId}
    {name : Encoding} {id : SymbolId} {fresh : Bool} (there : table.HasSymbol id)
    (aliases : setting.aliasing)
    (done : table.makeVisible scope name id = .ok (after, fresh)) :
    Formed setting pending after ∧ Evolves setting table after := by
  have consistent := formed.consistent.makeVisible there done
  have grows := grows_makeVisible done
  rcases of_makeVisible done with ⟨found, _, rfl⟩
  exact ⟨formed.of_links consistent grows (links_modifyScope scope fun _ => ⟨rfl, rfl⟩) rfl,
    evolves_modifyScope scope (fun _ => ⟨rfl, rfl⟩) grows fun _ _ _ _ => .inr (.inr aliases)⟩

theorem Formed.addNominated (formed : Formed setting pending table) {scope target : ScopeId}
    {able : Bool} (there : table.HasShape target .namespaceBody)
    (done : table.addNominated scope target = .ok (after, able)) :
    Formed setting pending after ∧ Evolves setting table after := by
  have consistent := formed.consistent.addNominated there done
  have grows := grows_addNominated done
  rcases of_addNominated done with rfl | ⟨found, region, _, _, rfl⟩
  · exact ⟨formed, .refl after⟩
  · exact ⟨formed.of_links consistent grows (links_modifyScope scope fun _ => ⟨rfl, rfl⟩) rfl,
      evolves_modifyScope scope (fun _ => ⟨rfl, rfl⟩) grows fun _ _ _ shown => .inl shown⟩

theorem Formed.addBase (formed : Formed setting pending table) {scope base : ScopeId}
    {fresh : Bool} (there : table.HasShape base .classBody)
    (done : table.addBase scope base = .ok (after, fresh)) :
    Formed setting pending after ∧ Evolves setting table after := by
  have consistent := formed.consistent.addBase there done
  have grows := grows_addBase done
  rcases of_addBase done with rfl | ⟨_, found, region, _, _, rfl⟩
  · exact ⟨formed, .refl after⟩
  · exact ⟨formed.of_links consistent grows (links_modifyScope scope fun _ => ⟨rfl, rfl⟩) rfl,
      evolves_modifyScope scope (fun _ => ⟨rfl, rfl⟩) grows fun _ _ _ shown => .inl shown⟩

theorem Formed.addFragment (formed : Formed setting pending table) (scope : ScopeId)
    (node : Tree.NodeId) : Formed setting pending (table.addFragment scope node) ∧
      Evolves setting table (table.addFragment scope node) := by
  have grows := table.grows_addFragment scope node
  exact ⟨formed.of_links (formed.consistent.addFragment scope node) grows
    (links_modifyScope scope fun _ => ⟨rfl, rfl⟩) rfl,
    evolves_modifyScope scope (fun _ => ⟨rfl, rfl⟩) grows fun _ _ _ shown => .inl shown⟩

/-- A symbol gets a scope of the shape that its family asks for. -/
theorem Formed.setDefines (formed : Formed setting pending table) {id : SymbolId}
    {scope : ScopeId} {shape : Region.Shape} (there : table.HasShape scope shape)
    (fits : ∀ symbol, table.symbol id = .ok symbol → symbol.kind.family.body? = some shape ∧
      (symbol.kind.family = .namespaceName → symbol.defines = none)) :
    Formed setting pending (table.modifySymbol id ({ · with defines := some scope })) ∧
      Evolves setting table (table.modifySymbol id ({ · with defines := some scope })) := by
  have grows := grows_setDefines id scope fun symbol read => (fits symbol read).2
  refine ⟨formed.of_links (formed.consistent.setDefines there fits) grows (fun _ => rfl) rfl, ?_⟩
  constructor
  · exact grows
  · exact fun _ there => .inl there
  · exact fun _ _ => rfl
  · refine declared_of_same fun other => ?_
    unfold declarers
    rw [symbol_modifySymbol]
    by_cases same : id = other
    · rw [if_pos same]
      cases table.symbol other <;> rfl
    · rw [if_neg same]
  · exact fun other there => .inl ((hasSymbol_modifySymbol id _ other).mp there)
  · exact fun _ _ _ shows => .inl shows
  · exact fun _ => keepsWays_of_links fun _ => rfl

/-- A declaration adds its node to those that declare its symbol. -/
theorem Declares.declarers_eq {scope : ScopeId} {symbol : Symbol} {id : SymbolId}
    (single : symbol.declarations = [symbol.node])
    (done : table.Declares scope symbol after (.ok id)) (other : SymbolId) :
    declarers after other = declarers table other ++ if id = other then [symbol.node] else [] := by
  cases done with
  | again found id readScope judged =>
    unfold declarers
    rw [symbol_modifySymbol]
    by_cases same : id = other
    · subst same
      rcases of_judge_again judged with ⟨_, old, read, _⟩
      rw [if_pos rfl, if_pos rfl, read]
      rfl
    · rw [if_neg same, if_neg same, List.append_nil]
  | fresh found readScope judged =>
    by_cases same : other = table.nextSymbol
    · rw [declarers_of_not_hasSymbol fun there => ne_nextSymbol there same, if_pos same.symm, ← single]
      unfold declarers
      rw [symbol_modifyScope, symbol_withSymbol, if_pos same]
      rfl
    · unfold declarers
      rw [if_neg (Ne.symm same), symbol_modifyScope, symbol_withSymbol, if_neg same, List.append_nil]

/-- A declaration only lets its own node declare something. -/
theorem Declares.declared {scope : ScopeId} {symbol : Symbol} {answer : Except Refusal SymbolId}
    (single : symbol.declarations = [symbol.node])
    (done : table.Declares scope symbol after answer) (id : SymbolId) :
    ∃ added, declarers after id = declarers table id ++ added ∧
      ∀ label ∈ added, label = symbol.node := by
  cases answer with
  | error refusal =>
    cases done
    exact ⟨[], (List.append_nil _).symm, fun _ member => absurd member List.not_mem_nil⟩
  | ok declared =>
    refine ⟨_, Declares.declarers_eq single done id, fun label member => ?_⟩
    split at member
    · exact List.mem_singleton.mp member
    · exact absurd member List.not_mem_nil

/-- What a declaration enters is declared by its node. -/
theorem Declares.entered {scope : ScopeId} {symbol : Symbol} {answer : Except Refusal SymbolId}
    (single : symbol.declarations = [symbol.node])
    (done : table.Declares scope symbol after answer) {id : SymbolId}
    (there : after.HasSymbol id) : table.HasSymbol id ∨ declarers after id ≠ [] := by
  cases done with
  | refused => exact .inl there
  | again found previous readScope judged =>
    exact .inl ((hasSymbol_modifySymbol previous _ id).mp there)
  | fresh found readScope judged =>
    rcases symbol_of_hasSymbol there with ⟨later, read⟩
    have same := declarers_of_symbol read
    rw [symbol_modifyScope, symbol_withSymbol] at read
    split at read
    · cases read
      rw [same, single]
      exact .inr (List.cons_ne_nil _ _)
    · exact .inl (hasSymbol_of_symbol read)

/-- A declaration makes no scope. -/
theorem Declares.hasScope_iff {scope : ScopeId} {symbol : Symbol}
    {answer : Except Refusal SymbolId} (done : table.Declares scope symbol after answer)
    (id : ScopeId) : after.HasScope id ↔ table.HasScope id := by
  cases done with
  | fresh found readScope judged => exact hasScope_modifyScope ..
  | again found previous readScope judged => exact Iff.rfl
  | refused => exact Iff.rfl

/-- What a declaration makes a scope show is new. -/
theorem Declares.shown {scope other : ScopeId} {symbol : Symbol} {name : Encoding}
    {answer : Except Refusal SymbolId} (done : table.Declares scope symbol after answer)
    {id : SymbolId} (shows : Shows after other name id) :
    Shows table other name id ∨ ¬ table.HasSymbol id := by
  cases done with
  | refused => exact .inl shows
  | again found previous readScope judged => exact .inl shows
  | fresh found readScope judged =>
    rcases shows with ⟨later, read, member⟩
    rcases of_mem_named_bind read member with ⟨old, before, known | ⟨_, _, rfl⟩⟩
    · exact .inl ⟨old, before, known⟩
    · exact .inr fun there => ne_nextSymbol there rfl

theorem Formed.declares (formed : Formed setting pending table) {scope : ScopeId}
    {symbol : Symbol} {answer : Except Refusal SymbolId} (here : symbol.scope = scope)
    (unopened : symbol.defines = none)
    (single : symbol.declarations = [symbol.node]) (allowed : symbol.node ∈ setting.declaring)
    (aliased : ∀ target, symbol.kind = .typedefName (some target) → table.HasSymbol target)
    (done : table.Declares scope symbol after answer) :
    Formed setting pending after ∧ Evolves setting table after := by
  subst here
  have consistent := formed.consistent.declares unopened aliased done
  have stay : ∀ id, links after id = links table id := by
    cases done with
    | fresh found read judged => exact links_modifyScope _ fun _ => ⟨rfl, rfl⟩
    | again found id read judged => exact fun _ => rfl
    | refused => exact fun _ => rfl
  have evolves : Evolves setting table after := {
    grows := done.grows
    scopes := fun id there => .inl ((Declares.hasScope_iff done id).mp there)
    notes := by cases done <;> exact fun _ _ => rfl
    declared := fun id => by
      rcases Declares.declared single done id with ⟨added, same, only⟩
      exact ⟨added, same, fun label member => (only label member).symm ▸ allowed⟩
    entered := fun id there => Declares.entered single done there
    shown := fun scope name id shows => (Declares.shown done shows).imp_right .inl
    ways := fun _ => keepsWays_of_links stay }
  refine ⟨formed.of_links consistent done.grows stay ?_, evolves⟩
  cases done <;> rfl

/-! ## New scopes, notes and moves -/

theorem scopeOfNode?_setNodeScope (node label : Tree.NodeId) (scope : ScopeId) :
    (table.setNodeScope node scope).scopeOfNode? label =
      if node = label then some scope else table.scopeOfNode? label := by
  unfold Table.scopeOfNode? setNodeScope
  rw [List.find?_cons]
  by_cases same : node = label
  · simp [same]
  · simp [same, beq_eq_false_iff_ne.mpr same]

/-- A scope may be noted for a node that is allowed one.  To note the scope that a node has anyway
changes nothing. -/
theorem Formed.setNodeScope (formed : Formed setting pending table) {node : Tree.NodeId}
    {scope : ScopeId} {shape : Region.Shape} (there : table.HasShape scope shape)
    (bears : (setting.content node).Bears node shape)
    (allowed : node ∈ setting.noted ∨ table.scopeOfNode? node = some scope) :
    Formed setting pending (table.setNodeScope node scope) ∧
      Evolves setting table (table.setNodeScope node scope) := by
  have grows := table.grows_setNodeScope node scope
  constructor
  · constructor
    · exact formed.consistent.setNodeScope node there.hasScope
    · exact formed.root
    · exact List.forall_mem_cons.mpr ⟨⟨shape, there, bears⟩, formed.notes⟩
    · exact formed.older
    · exact formed.headers
    · exact formed.headed
    · exact fun first => (formed.budding first).of_links grows fun _ => rfl
    · exact fun first => housed_of_links (formed.housed first) grows (fun _ => rfl)
        (List.subset_cons_self ..)
  · refine ⟨grows, fun _ there => .inl there, fun label other => ?_, declared_of_same fun _ => rfl,
      fun _ there => .inl there, fun _ _ _ shows => .inl shows,
      fun _ => keepsWays_of_links fun _ => rfl⟩
    rw [scopeOfNode?_setNodeScope]
    split
    · next same =>
      subst same
      exact (allowed.resolve_left other).symm
    · rfl

/-- Headers that may still be moved are none of the scopes that something is entered into. -/
def Outside (setting : Setting) (pending : Option ScopeId) (outer : ScopeId) : Prop :=
  setting.first = true → outer ∉ setting.held ∧ pending ≠ some outer

theorem Formed.outside_of_isOpen (formed : Formed setting pending table) {outer : ScopeId}
    (isOpen : table.Open outer) : Outside setting pending outer := by
  intro first
  constructor
  · intro member
    rcases (formed.budding first).isHeader outer member with ⟨declaration, has⟩
    exact isOpen.ne has rfl
  · intro same
    rcases formed.headed outer same with ⟨declaration, has⟩
    exact isOpen.ne has rfl

theorem childless_createScope (region : Region) {outer : ScopeId} (inside : table.HasScope outer)
    (node : Tree.NodeId) :
    Childless (table.createScope region (some outer) (some node)).1 table.nextScope := by
  intro scope read
  rw [scope_createScope_self region inside node] at read
  cases read
  rfl

/-- A new scope closes no circle, and is in no header that may still be moved. -/
theorem Budding.createScope {held : List ScopeId} (budding : Budding held pending table)
    (nests : table.Nests) (headed : ∀ header, pending = some header → IsHeader table header)
    (region : Region) {outer : ScopeId} (inside : table.HasScope outer) (node : Tree.NodeId)
    (outside : outer ∉ held ∧ pending ≠ some outer) :
    Budding held pending (table.createScope region (some outer) (some node)).1 where
  ranked := by
    rcases budding.ranked with ⟨rank, descends⟩
    refine ⟨fun id => if id = table.nextScope then rank outer + 1 else rank id, ?_⟩
    intro inner around step
    rcases (around_createScope region inside node inner around).mp step with
      ⟨rfl, rfl⟩ | ⟨old, before⟩
    · simp only [if_true, if_neg (ne_nextScope inside)]
      exact Nat.lt_succ_self _
    · rcases before with ⟨found, read, same⟩
      simp only [if_neg old, if_neg (ne_nextScope (nests.outer inner found around read same))]
      exact descends inner around ⟨found, read, same⟩
  isHeader header member :=
    (budding.isHeader header member).grows (grows_createScope region _ node)
  childless header which scope read := by
    have there : IsHeader table header := which.elim (budding.isHeader header) (headed header)
    rcases there with ⟨declaration, has⟩
    have elsewhere : header ≠ outer := by
      rintro rfl
      exact which.elim outside.1 outside.2
    rcases of_scope_createScope inside read with ⟨rfl, _⟩ | ⟨_, found, before, rfl⟩
    · exact absurd rfl (ne_nextScope has.hasScope)
    · rw [if_neg elsewhere]
      exact (List.append_nil _).trans (budding.childless header which found before)
  apart := budding.apart

/-- A new scope for a node changes nothing else. -/
theorem evolves_createScope {region : Region} {outer : ScopeId} (inside : table.HasScope outer)
    {node : Tree.NodeId} (allowed : node ∈ setting.noted) :
    Evolves setting table (table.createScope region (some outer) (some node)).1 where
  grows := grows_createScope region outer node
  scopes _ _ := .inr ⟨node, allowed⟩
  notes label other := by
    have note : (table.setNodeScope node table.nextScope).scopeOfNode? label = _ :=
      scopeOfNode?_setNodeScope node label table.nextScope
    unfold Table.scopeOfNode? at note ⊢
    rw [nodeScopes_createScope region inside node]
    refine note.trans (if_neg ?_)
    rintro rfl
    exact other allowed
  declared := by
    refine declared_of_same fun id => ?_
    unfold declarers
    rw [symbol_createScope]
  entered id there := by
    rcases symbol_of_hasSymbol there with ⟨later, read⟩
    rw [symbol_createScope] at read
    exact .inl (hasSymbol_of_symbol read)
  shown scope name id shows := by
    rcases shows with ⟨found, read, member⟩
    rcases of_scope_createScope inside read with ⟨_, rfl⟩ | ⟨_, old, before, rfl⟩
    · cases member
    · exact .inl ⟨old, before, member⟩
  ways _ := .of_around fun id around step =>
    (around_createScope region inside node id around).mpr (.inr ⟨ne_nextScope step.hasScope, step⟩)

theorem Formed.createScope (formed : Formed setting pending table) {region : Region}
    {outer : ScopeId} (inside : table.HasScope outer) {node : Tree.NodeId}
    (inOrder : (Scope.ofRegion region (some outer)).ConsistentIn table table.nextScope)
    (bears : (setting.content node).Bears node region.shape) (allowed : node ∈ setting.noted)
    (outside : Outside setting pending outer)
    (houses : setting.first = true → region.shape = .namespaceBody ∨ region.shape = .classBody →
      table.LeadsOut setting.inner outer ∨ node ∈ setting.inner) :
    Formed setting pending (table.createScope region (some outer) (some node)).1 ∧
      Evolves setting table (table.createScope region (some outer) (some node)).1 := by
  have grows : table.Grows _ := grows_createScope region outer node
  refine ⟨?_, evolves_createScope inside allowed⟩
  constructor
  · exact formed.consistent.createScope inside node inOrder
  · exact grows.hasShape formed.root
  · rw [nodeScopes_createScope region inside node]
    refine List.forall_mem_cons.mpr
      ⟨⟨region.shape, hasShape_createScope region inside node, bears⟩, fun note member => ?_⟩
    rcases formed.notes note member with ⟨shape, has, bears⟩
    exact ⟨shape, grows.hasShape has, bears⟩
  · intro id scope around read same plain
    rcases of_scope_createScope inside read with ⟨rfl, rfl⟩ | ⟨_, found, before, rfl⟩
    · cases same
      exact inside
    · exact formed.older id found around before same plain
  · rintro id declaration ⟨scope, read, shape⟩
    rcases of_scope_createScope inside read with ⟨_, rfl⟩ | ⟨_, found, before, rfl⟩
    · have shape : region.shape = .header declaration := shape
      rw [shape] at bears
      rcases of_bears_header bears with ⟨is, rfl⟩
      exact is
    · exact formed.headers id declaration ⟨found, before, shape⟩
  · exact fun header is => (formed.headed header is).grows grows
  · exact fun first => (formed.budding first).createScope formed.consistent.nests formed.headed
      region inside node (outside first)
  · exact fun first => (formed.housed first).createScope inside (houses first)

/-- Moving a header with nothing inside it closes no circle. -/
theorem Budding.reparent {held : List ScopeId} (budding : Budding held pending table)
    (nests : table.Nests) (headed : ∀ header, pending = some header → IsHeader table header)
    {moved outer : ScopeId} (isOpen : table.Open outer) (empty : Childless table moved)
    (done : table.reparent moved outer = .ok after) : Budding held pending after := by
  have grows := grows_reparent done
  rcases of_reparent done with rfl | ⟨found, read, moves⟩
  · exact budding
  constructor
  · rcases budding.ranked with ⟨rank, descends⟩
    refine ⟨fun id => if id = moved then rank outer + 1 else rank id, ?_⟩
    rintro inner around ⟨scope, readInner, same⟩
    rcases moves.of_scope readInner with ⟨old, before, rfl⟩
    unfold movedScope at same
    dsimp only at same
    split at same
    · next is =>
      cases same
      simp only [is, if_true, if_neg (Ne.symm moves.other)]
      exact Nat.lt_succ_self _
    · next apart =>
      -- nothing lies inside the header that is moved, so its new rank matters to no other scope
      have elsewhere : around ≠ moved := by
        rintro rfl
        exact empty.not_around nests (hasScope_of_scope read) inner ⟨old, before, same⟩
      simp only [if_neg apart, if_neg elsewhere]
      exact descends inner around ⟨old, before, same⟩
  · exact fun header member => (budding.isHeader header member).grows grows
  · intro header which scope readHeader
    rcases moves.of_scope readHeader with ⟨old, before, rfl⟩
    have there : IsHeader table header := which.elim (budding.isHeader header) (headed header)
    rcases there with ⟨declaration, has⟩
    have nothing := budding.childless header which old before
    unfold movedScope
    dsimp only
    rw [nothing, if_neg (Ne.symm (isOpen.ne has))]
    split <;> rfl
  · exact budding.apart

/-- Moving a header with nothing inside it changes nothing else. -/
theorem evolves_reparent {moved outer : ScopeId} {declaration : Tree.NodeId}
    (isHeader : table.HasShape moved (.header declaration))
    (empty : setting.first = true → ∀ id, ¬ table.Around id moved)
    (loose : setting.first = true → moved ∉ setting.settled)
    (done : table.reparent moved outer = .ok after) : Evolves setting table after := by
  have grows := grows_reparent done
  have ways := fun first => keepsWays_reparent done isHeader (empty first) (loose first)
  rcases of_reparent done with rfl | ⟨found, _, moves⟩
  · exact .refl after
  exact {
    grows := grows
    scopes := by
      intro id there
      rcases scope_of_hasScope there with ⟨later, read⟩
      rcases moves.of_scope read with ⟨old, before, _⟩
      exact .inl (hasScope_of_scope before)
    notes := by
      intro label _
      unfold Table.scopeOfNode?
      rw [moves.nodeScopes]
    declared := by
      refine declared_of_same fun id => ?_
      unfold declarers
      rw [moves.symbol]
    entered := by
      intro id there
      unfold Table.HasSymbol at there
      rw [moves.symbols] at there
      exact .inl there
    shown := by
      rintro scope name id ⟨found, read, member⟩
      rcases moves.of_scope read with ⟨old, before, rfl⟩
      exact .inl ⟨old, before, member⟩
    ways := ways }

theorem Formed.reparent (formed : Formed setting pending table) {moved outer : ScopeId}
    (isOpen : table.Open outer) (isHeader : IsHeader table moved)
    (empty : setting.first = true → Childless table moved)
    (loose : setting.first = true → moved ∉ setting.settled ∧ pending ≠ some moved)
    (done : table.reparent moved outer = .ok after) :
    Formed setting pending after ∧ Evolves setting table after := by
  rcases isHeader with ⟨declaration, has⟩
  have alone := fun first => (empty first).not_around formed.consistent.nests has.hasScope
  have grows := grows_reparent done
  have consistent := formed.consistent.reparent isOpen.hasScope done
  have budding := fun first => (formed.budding first).reparent formed.consistent.nests
    formed.headed isOpen (empty first) done
  refine ⟨?_, evolves_reparent has alone (fun first => (loose first).1) done⟩
  rcases of_reparent done with rfl | ⟨found, _, moves⟩
  · exact formed
  constructor
  · exact consistent
  · exact grows.hasShape formed.root
  · rw [moves.nodeScopes]
    intro note member
    rcases formed.notes note member with ⟨shape, has, bears⟩
    exact ⟨shape, grows.hasShape has, bears⟩
  · intro id scope around read same plain
    rcases moves.of_scope read with ⟨old, before, rfl⟩
    have apart : id ≠ moved := by
      rintro rfl
      have shape : .header declaration = old.region.shape := has.unique ⟨old, before, rfl⟩
      have plain : old.region.shape.isHeader = false := plain
      rw [← shape] at plain
      cases plain
    unfold movedScope at same
    dsimp only at same
    rw [if_neg apart] at same
    exact formed.older id old around before same plain
  · rintro id declaration ⟨scope, read, shape⟩
    rcases moves.of_scope read with ⟨old, before, rfl⟩
    exact formed.headers id declaration ⟨old, before, shape⟩
  · exact fun header is => (formed.headed header is).grows grows
  · exact budding
  · exact fun first => (formed.housed first).reparent done (alone first) has (loose first)

end Binding
end CppNames
