import CppNames.Proofs.Table.Redeclaration

namespace CppNames

/-!
# Tables that grow

Nothing that was entered into a table is ever taken out again.  A scope keeps its kind and the
symbols of its names; a symbol keeps its name, its scope, its family and its type, and remembers
whatever declared it.  `Grows` says this of two tables.  A fact that only speaks of such things
stays true however long binding goes on, so what is known of an index when it is handed out is
still known when it is used.
-/

/-- What kind of region a scope is, without what binding adds to it.  A template header keeps the
node that it was made for. -/
inductive Region.Shape where
  | namespaceBody
  | classBody
  | functionBody
  | prototype
  | block
  | header (declaration : Tree.NodeId)
  deriving DecidableEq, Repr

namespace Region

/-- The shape of a region. -/
def shape : Region → Shape
  | .namespaceBody .. => .namespaceBody
  | .classBody .. => .classBody
  | .functionBody .. => .functionBody
  | .prototype _ => .prototype
  | .block .. => .block
  | .templateParameters declaration => .header declaration

/-- Whether the shape is that of a template header. -/
def Shape.isHeader : Shape → Bool
  | .header _ => true
  | _ => false

theorem isNamespace_iff (region : Region) : region.isNamespace = true ↔ region.shape = .namespaceBody := by
  cases region <;> simp [isNamespace, shape]

theorem isClass_iff (region : Region) : region.isClass = true ↔ region.shape = .classBody := by
  cases region <;> simp [isClass, shape]

theorem shape_nominate? {region later : Region} {target : ScopeId}
    (nominates : region.nominate? target = some later) : later.shape = region.shape := by
  cases region <;> cases nominates <;> rfl

theorem shape_withBase? {region later : Region} {base : ScopeId}
    (has : region.withBase? base = some later) : later.shape = region.shape := by
  cases region with
  | classBody name specifier bases =>
    unfold withBase? at has
    dsimp only at has
    split at has
    · cases has
    · cases has
      rfl
  | _ => cases has

theorem shape_withFragment (region : Region) (node : Tree.NodeId) :
    (region.withFragment node).shape = region.shape := by
  cases region <;> rfl

end Region

/-- What may change of a symbol: further nodes declare it, more becomes known about it, and it
gets a scope.  The scope of a namespace stays, and so does the place of a symbol that nothing else
declares. -/
structure Symbol.GrowsInto (old new : Symbol) : Prop where
  name : new.name = old.name
  scope : new.scope = old.scope
  resembles : old.Resembles new
  declarations : old.declarations <+: new.declarations
  opened : old.kind.family = .namespaceName →
    ∀ scope, old.defines = some scope → new.defines = some scope
  place : new.declarations = old.declarations → new.span = old.span

namespace Symbol.GrowsInto

theorem refl (symbol : Symbol) : symbol.GrowsInto symbol where
  name := rfl
  scope := rfl
  resembles := ⟨rfl, rfl⟩
  declarations := List.prefix_refl _
  opened _ _ same := same
  place _ := rfl

theorem trans {first second third : Symbol} (front : first.GrowsInto second)
    (back : second.GrowsInto third) : first.GrowsInto third where
  name := back.name.trans front.name
  scope := back.scope.trans front.scope
  resembles :=
    ⟨front.resembles.1.trans back.resembles.1, front.resembles.2.trans back.resembles.2⟩
  declarations := front.declarations.trans back.declarations
  opened isNamespace scope same :=
    back.opened (front.resembles.1.symm.trans isNamespace) scope (front.opened isNamespace scope same)
  place same := by
    have shorter : second.declarations.length ≤ first.declarations.length :=
      same ▸ back.declarations.length_le
    have stays : second.declarations = first.declarations :=
      (front.declarations.eq_of_length (Nat.le_antisymm front.declarations.length_le shorter)).symm
    exact (back.place (same.trans stays.symm)).trans (front.place stays)

theorem merged (old new : Symbol) : old.GrowsInto (Table.merged old new) where
  name := rfl
  scope := rfl
  resembles := Table.resembles_merged old new
  declarations := List.prefix_append _ _
  opened _ _ same := same
  place same := by
    have longer := congrArg List.length same
    simp [Table.merged] at longer

end Symbol.GrowsInto

namespace Table

variable {table before middle after : Table}

/-- A scope of a given shape. -/
def HasShape (table : Table) (id : ScopeId) (shape : Region.Shape) : Prop :=
  ∃ scope, table.scope id = .ok scope ∧ scope.region.shape = shape

/-- A scope that is not a template header. -/
def Open (table : Table) (id : ScopeId) : Prop :=
  ∃ shape, table.HasShape id shape ∧ shape.isHeader = false

/-- A table that holds at least what another one holds. -/
structure Grows (before after : Table) : Prop where
  scope : ∀ id scope, before.scope id = .ok scope → ∃ later, after.scope id = .ok later ∧
    later.region.shape = scope.region.shape ∧ ∀ name, scope.named name <+: later.named name
  symbol : ∀ id symbol, before.symbol id = .ok symbol →
    ∃ later, after.symbol id = .ok later ∧ symbol.GrowsInto later

namespace Grows

theorem refl (table : Table) : table.Grows table where
  scope _ scope read := ⟨scope, read, rfl, fun _ => List.prefix_refl _⟩
  symbol _ symbol read := ⟨symbol, read, .refl symbol⟩

theorem trans (front : before.Grows middle) (back : middle.Grows after) : before.Grows after where
  scope id scope read := by
    rcases front.scope id scope read with ⟨between, readBetween, shape, names⟩
    rcases back.scope id between readBetween with ⟨later, readLater, same, more⟩
    exact ⟨later, readLater, same.trans shape, fun name => (names name).trans (more name)⟩
  symbol id symbol read := by
    rcases front.symbol id symbol read with ⟨between, readBetween, grows⟩
    rcases back.symbol id between readBetween with ⟨later, readLater, more⟩
    exact ⟨later, readLater, grows.trans more⟩

theorem hasShape (grows : before.Grows after) {id : ScopeId} {shape : Region.Shape}
    (has : before.HasShape id shape) : after.HasShape id shape := by
  rcases has with ⟨scope, read, same⟩
  rcases grows.scope id scope read with ⟨later, readLater, shape, _⟩
  exact ⟨later, readLater, shape.trans same⟩

theorem isOpen (grows : before.Grows after) {id : ScopeId} (has : before.Open id) :
    after.Open id := by
  rcases has with ⟨shape, has, plain⟩
  exact ⟨shape, grows.hasShape has, plain⟩

theorem hasScope (grows : before.Grows after) {id : ScopeId} (has : before.HasScope id) :
    after.HasScope id := by
  rcases scope_of_hasScope has with ⟨scope, read⟩
  rcases grows.scope id scope read with ⟨later, readLater, _⟩
  exact hasScope_of_scope readLater

theorem hasSymbol (grows : before.Grows after) {id : SymbolId} (has : before.HasSymbol id) :
    after.HasSymbol id := by
  rcases symbol_of_hasSymbol has with ⟨symbol, read⟩
  rcases grows.symbol id symbol read with ⟨later, readLater, _⟩
  exact hasSymbol_of_symbol readLater

end Grows

theorem HasShape.hasScope {id : ScopeId} {shape : Region.Shape} (has : table.HasShape id shape) :
    table.HasScope id := by
  rcases has with ⟨scope, read, _⟩
  exact hasScope_of_scope read

theorem HasShape.unique {id : ScopeId} {shape other : Region.Shape}
    (first : table.HasShape id shape) (second : table.HasShape id other) : shape = other := by
  rcases first with ⟨scope, read, rfl⟩
  rcases second with ⟨again, readAgain, rfl⟩
  rw [read] at readAgain
  cases readAgain
  rfl

theorem Open.hasScope {id : ScopeId} (has : table.Open id) : table.HasScope id := by
  rcases has with ⟨shape, has, _⟩
  exact has.hasScope

theorem HasShape.isOpen {id : ScopeId} {shape : Region.Shape} (has : table.HasShape id shape)
    (plain : shape.isHeader = false) : table.Open id := ⟨shape, has, plain⟩

theorem Open.ne {id header : ScopeId} {declaration : Tree.NodeId} (has : table.Open id)
    (other : table.HasShape header (.header declaration)) : id ≠ header := by
  rintro rfl
  rcases has with ⟨shape, has, plain⟩
  rw [has.unique other] at plain
  cases plain

/-! ## Operations -/

/-- Changing a scope lets the table grow, if the scope keeps its shape and its names. -/
theorem grows_modifyScope (target : ScopeId) {change : Scope → Scope}
    (kept : ∀ scope, table.scope target = .ok scope →
      (change scope).region.shape = scope.region.shape ∧
      ∀ name, scope.named name <+: (change scope).named name) :
    table.Grows (table.modifyScope target change) where
  scope id scope read := by
    rw [scope_modifyScope]
    split
    · next same =>
      subst same
      rcases kept scope read with ⟨shape, names⟩
      exact ⟨change scope, by rw [read]; rfl, shape, names⟩
    · exact ⟨scope, read, rfl, fun _ => List.prefix_refl _⟩
  symbol id symbol read := ⟨symbol, read, .refl symbol⟩

/-- Changing a symbol lets the table grow, if the symbol grows. -/
theorem grows_modifySymbol (target : SymbolId) {change : Symbol → Symbol}
    (kept : ∀ symbol, table.symbol target = .ok symbol → symbol.GrowsInto (change symbol)) :
    table.Grows (table.modifySymbol target change) where
  scope id scope read := ⟨scope, read, rfl, fun _ => List.prefix_refl _⟩
  symbol id symbol read := by
    rw [symbol_modifySymbol]
    split
    · next same =>
      subst same
      exact ⟨change symbol, by rw [read]; rfl, kept symbol read⟩
    · exact ⟨symbol, read, .refl symbol⟩

theorem grows_withScope (scope : Scope) : table.Grows (table.withScope scope) where
  scope id found read := by
    rw [scope_withScope, if_neg (ne_nextScope (hasScope_of_scope read))]
    exact ⟨found, read, rfl, fun _ => List.prefix_refl _⟩
  symbol id symbol read := ⟨symbol, read, .refl symbol⟩

theorem grows_withSymbol (symbol : Symbol) : table.Grows (table.withSymbol symbol) where
  scope id scope read := ⟨scope, read, rfl, fun _ => List.prefix_refl _⟩
  symbol id found read := by
    rw [symbol_withSymbol, if_neg (ne_nextSymbol (hasSymbol_of_symbol read))]
    exact ⟨found, read, .refl found⟩

theorem grows_setNodeScope (node : Tree.NodeId) (scope : ScopeId) :
    table.Grows (table.setNodeScope node scope) where
  scope _ scope read := ⟨scope, read, rfl, fun _ => List.prefix_refl _⟩
  symbol _ symbol read := ⟨symbol, read, .refl symbol⟩

theorem grows_createScope (region : Region) (outer : ScopeId) (node : Tree.NodeId) :
    table.Grows (table.createScope region (some outer) (some node)).1 := by
  have nested : (table.withScope (.ofRegion region (some outer))).Grows
      ((table.withScope (.ofRegion region (some outer))).modifyScope outer
        fun found => { found with nested := found.nested ++ [table.nextScope] }) :=
    grows_modifyScope outer fun scope _ => ⟨rfl, fun _ => List.prefix_refl _⟩
  unfold createScope
  dsimp only
  split
  · exact (grows_withScope _).trans (nested.trans (grows_setNodeScope ..))
  · exact grows_withScope _

theorem hasShape_createScope (region : Region) {outer : ScopeId} (inside : table.HasScope outer)
    (node : Tree.NodeId) :
    (table.createScope region (some outer) (some node)).1.HasShape table.nextScope region.shape :=
  ⟨.ofRegion region (some outer), scope_createScope_self region inside node, rfl⟩

theorem grows_makeVisible {scope : ScopeId} {name : Encoding} {id : SymbolId} {fresh : Bool}
    (done : table.makeVisible scope name id = .ok (after, fresh)) : table.Grows after := by
  rcases of_makeVisible done with ⟨found, _, rfl⟩
  exact grows_modifyScope scope fun scope _ => ⟨rfl, fun _ => Scope.prefix_named_bind ..⟩

theorem grows_addNominated {scope target : ScopeId} {able : Bool}
    (done : table.addNominated scope target = .ok (after, able)) : table.Grows after := by
  rcases of_addNominated done with rfl | ⟨found, region, read, nominates, rfl⟩
  · exact .refl after
  · refine grows_modifyScope scope fun scope same => ?_
    rw [read] at same
    cases same
    exact ⟨Region.shape_nominate? nominates, fun _ => List.prefix_refl _⟩

theorem grows_addBase {scope base : ScopeId} {fresh : Bool}
    (done : table.addBase scope base = .ok (after, fresh)) : table.Grows after := by
  rcases of_addBase done with rfl | ⟨_, found, region, read, has, rfl⟩
  · exact .refl after
  · refine grows_modifyScope scope fun scope same => ?_
    rw [read] at same
    cases same
    exact ⟨Region.shape_withBase? has, fun _ => List.prefix_refl _⟩

theorem grows_addFragment (scope : ScopeId) (node : Tree.NodeId) :
    table.Grows (table.addFragment scope node) :=
  grows_modifyScope scope fun _ _ =>
    ⟨Region.shape_withFragment _ _, fun _ => List.prefix_refl _⟩

theorem grows_setDefines (id : SymbolId) (scope : ScopeId)
    (free : ∀ symbol, table.symbol id = .ok symbol → symbol.kind.family = .namespaceName →
      symbol.defines = none) :
    table.Grows (table.modifySymbol id ({ · with defines := some scope })) := by
  refine grows_modifySymbol id fun symbol read => ?_
  exact {
    name := rfl
    scope := rfl
    resembles := ⟨rfl, rfl⟩
    declarations := List.prefix_refl _
    opened := by
      intro isNamespace old same
      rw [free symbol read isNamespace] at same
      cases same
    place := fun _ => rfl }

theorem Declares.grows {scope : ScopeId} {symbol : Symbol} {answer : Except Refusal SymbolId}
    (done : table.Declares scope symbol after answer) : table.Grows after := by
  cases done with
  | refused => exact .refl table
  | again found id read judged =>
    exact grows_modifySymbol id fun old _ => .merged old symbol
  | fresh found read judged =>
    refine (grows_withSymbol symbol).trans (grows_modifyScope scope fun scope _ => ⟨rfl, ?_⟩)
    exact fun name => Scope.prefix_named_bind ..

theorem grows_reparent {moved outer : ScopeId} (done : table.reparent moved outer = .ok after) :
    table.Grows after := by
  rcases of_reparent done with rfl | ⟨found, _, moves⟩
  · exact .refl after
  · constructor
    · intro id scope read
      refine ⟨movedScope moved outer found.outer id scope, ?_, rfl, fun _ => List.prefix_refl _⟩
      rw [moves.scopes, read]
      rfl
    · exact fun id symbol read => ⟨symbol, (moves.symbol id).trans read, .refl symbol⟩

end Table
end CppNames
