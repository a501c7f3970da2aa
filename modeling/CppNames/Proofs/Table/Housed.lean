import CppNames.Proofs.Lookup.Outward
import CppNames.Proofs.Table.Growth

namespace CppNames
namespace Table

/-!
# What lies inside what

The scope of a namespace or a class lies in another such scope, or in the headers of templates
between the two.  Otherwise the namespace or the class stands inside a function.  `Housed` says
this of all of them, given the nodes that stand inside functions.

A header may be moved while nothing lies inside it.  This changes where the header leads, but it
changes no way outwards from a scope that is no header.
-/

variable {table before middle after : Table}

/-- The scope of a namespace or a class. -/
def HasMembers (table : Table) (id : ScopeId) : Prop :=
  table.HasShape id .namespaceBody ∨ table.HasShape id .classBody

/-- The scope of the parameters of a function, of its body, or of a block in it. -/
def IsLocal (table : Table) (id : ScopeId) : Prop :=
  table.HasShape id .prototype ∨ table.HasShape id .functionBody ∨ table.HasShape id .block

/-- A scope that is noted for one of some nodes. -/
def IsNotedFor (table : Table) (labels : Set Tree.NodeId) (id : ScopeId) : Prop :=
  ∃ label ∈ labels, (label, id) ∈ table.nodeScopes

theorem HasMembers.grows {id : ScopeId} (has : before.HasMembers id) (grows : before.Grows after) :
    after.HasMembers id := has.imp grows.hasShape grows.hasShape

theorem HasMembers.isOpen {id : ScopeId} (has : table.HasMembers id) : table.Open id :=
  has.elim (fun has => has.isOpen rfl) fun has => has.isOpen rfl

theorem HasMembers.not_isLocal {id : ScopeId} (has : table.HasMembers id) : ¬ table.IsLocal id := by
  intro isLocal
  rcases has with has | has <;> rcases isLocal with other | other | other <;>
    cases has.unique other

theorem not_isLocal_of_header {id : ScopeId} {declaration : Tree.NodeId}
    (has : table.HasShape id (.header declaration)) : ¬ table.IsLocal id := by
  intro isLocal
  rcases isLocal with other | other | other <;> cases has.unique other

/-- The way outwards from a scope leads through headers to a namespace or a class, or to a header
that stands inside a function. -/
inductive LeadsOut (inner : Set Tree.NodeId) (table : Table) : ScopeId → Prop
  | members {id : ScopeId} (has : table.HasMembers id) : LeadsOut inner table id
  | inside {id : ScopeId} {declaration : Tree.NodeId}
      (isHeader : table.HasShape id (.header declaration)) (noted : table.IsNotedFor inner id) :
      LeadsOut inner table id
  | header {id outer : ScopeId} {declaration : Tree.NodeId}
      (isHeader : table.HasShape id (.header declaration)) (step : table.Around id outer)
      (leads : LeadsOut inner table outer) : LeadsOut inner table id

/-- A namespace, a class or a template header that stands inside a function. -/
def StandsInside (table : Table) (inner : Set Tree.NodeId) (id : ScopeId) : Prop :=
  table.IsNotedFor inner id ∧
    (table.HasMembers id ∨ ∃ declaration, table.HasShape id (.header declaration))

/-- Every namespace and every class leads out or stands inside a function, and so do the headers
that are settled and the one whose declaration comes next. -/
structure Housed (table : Table) (inner : Set Tree.NodeId) (settled : Set ScopeId)
    (pending : Option ScopeId) : Prop where
  members : ∀ id outer, table.HasMembers id → table.Around id outer →
    table.LeadsOut inner outer ∨ table.IsNotedFor inner id
  headers : ∀ header, header ∈ settled ∨ pending = some header → table.LeadsOut inner header
  apart : ∀ header ∈ settled, pending ≠ some header

variable {inner : Set Tree.NodeId} {settled : Set ScopeId} {pending : Option ScopeId}

namespace LeadsOut

theorem hasScope {id : ScopeId} (leads : LeadsOut inner table id) : table.HasScope id := by
  cases leads with
  | members has => exact has.isOpen.hasScope
  | inside isHeader _ => exact isHeader.hasScope
  | header isHeader _ _ => exact isHeader.hasScope

/-- A way leads out as long as its steps stay. -/
theorem transport (stays : ScopeId → Prop) (grows : before.Grows after)
    (notes : before.nodeScopes ⊆ after.nodeScopes)
    (steps : ∀ id outer, stays id → before.Around id outer → after.Around id outer ∧ stays outer)
    {id : ScopeId} (leads : LeadsOut inner before id) (here : stays id) :
    LeadsOut inner after id := by
  induction leads with
  | members has => exact .members (has.grows grows)
  | inside isHeader noted =>
    exact .inside (grows.hasShape isHeader) (noted.imp fun _ both => ⟨both.1, notes both.2⟩)
  | header isHeader step _ ih =>
    rcases steps _ _ here step with ⟨later, there⟩
    exact .header (grows.hasShape isHeader) later (ih there)

end LeadsOut

namespace Housed

/-- An operation keeps scopes housed if it keeps the steps outwards from all scopes of some kind,
and if what it makes is housed. -/
theorem transport (housed : Housed before inner settled pending) (stays : ScopeId → Prop)
    (grows : before.Grows after) (notes : before.nodeScopes ⊆ after.nodeScopes)
    (steps : ∀ id outer, stays id → before.Around id outer → after.Around id outer ∧ stays outer)
    (old : ∀ id outer, after.HasMembers id → after.Around id outer →
      (before.HasMembers id ∧ before.Around id outer ∧ stays outer) ∨
        after.LeadsOut inner outer ∨ after.IsNotedFor inner id)
    (kept : ∀ header, header ∈ settled ∨ pending = some header → stays header) :
    Housed after inner settled pending where
  members id outer has step := by
    rcases old id outer has step with ⟨had, before, there⟩ | new
    · exact (housed.members id outer had before).imp
        (fun leads => leads.transport stays grows notes steps there)
        fun noted => noted.imp fun _ both => ⟨both.1, notes both.2⟩
    · exact new
  headers header which := (housed.headers header which).transport stays grows notes steps
    (kept header which)
  apart := housed.apart

/-- What leads out to the scope of a function leads through a namespace, a class or a header that
stands inside a function. -/
theorem standsInside_of_isLocal (housed : Housed table inner settled pending)
    {start last : ScopeId} (way : Relation.ReflTransGen table.Around start last)
    (leads : LeadsOut inner table start) (isLocal : table.IsLocal last) :
    ∃ id, Relation.ReflTransGen table.Around start id ∧ table.StandsInside inner id := by
  induction way using Relation.ReflTransGen.head_induction_on with
  | refl =>
    cases leads with
    | members has => exact absurd isLocal has.not_isLocal
    | inside isHeader _ => exact absurd isLocal (not_isLocal_of_header isHeader)
    | header isHeader _ _ => exact absurd isLocal (not_isLocal_of_header isHeader)
  | @head first next step _ ih =>
    have onwards : LeadsOut inner table next →
        ∃ id, Relation.ReflTransGen table.Around first id ∧ table.StandsInside inner id := by
      intro leads
      rcases ih leads with ⟨id, way, found⟩
      exact ⟨id, .head step way, found⟩
    cases leads with
    | members has =>
      rcases housed.members first next has step with leads | noted
      · exact onwards leads
      · exact ⟨first, .refl, noted, .inl has⟩
    | inside isHeader noted => exact ⟨first, .refl, noted, .inr ⟨_, isHeader⟩⟩
    | header isHeader other leads => exact onwards (around_unique other step ▸ leads)

end Housed

/-! ## Ways that stay -/

/-- The ways outwards stay from the scopes that are no headers, and from the headers that are
settled. -/
def KeepsWays (settled : Set ScopeId) (before after : Table) : Prop :=
  ∀ start id outer, before.Open start ∨ start ∈ settled →
    Relation.ReflTransGen before.Around start id → before.Around id outer → after.Around id outer

namespace KeepsWays

theorem of_around (steps : ∀ id outer, before.Around id outer → after.Around id outer) :
    KeepsWays settled before after := fun _ id outer _ _ step => steps id outer step

theorem refl (table : Table) : KeepsWays settled table table := .of_around fun _ _ step => step

theorem way (keeps : KeepsWays settled before after) {start id : ScopeId}
    (stays : before.Open start ∨ start ∈ settled)
    (way : Relation.ReflTransGen before.Around start id) :
    Relation.ReflTransGen after.Around start id := by
  induction way with
  | refl => exact .refl
  | tail front step ih => exact ih.tail (keeps start _ _ stays front step)

theorem trans (front : KeepsWays settled before middle) (grows : before.Grows middle)
    (back : KeepsWays settled middle after) : KeepsWays settled before after := by
  intro start id outer stays way step
  exact back start id outer (stays.imp_left grows.isOpen) (front.way stays way)
    (front start id outer stays way step)

theorem fewer {few : Set ScopeId} (keeps : KeepsWays settled before after) (fewer : few ⊆ settled) :
    KeepsWays few before after :=
  fun start id outer stays => keeps start id outer (stays.imp_right (fewer ·))

/-- A way stays step by step. -/
theorem chain (keeps : KeepsWays settled before after) {start id : ScopeId}
    (stays : before.Open start ∨ start ∈ settled)
    (way : Relation.ReflTransGen before.Around start id) {route : List ScopeId}
    (chain : List.IsChain before.Around (id :: route)) :
    List.IsChain after.Around (id :: route) := by
  induction route generalizing id with
  | nil => exact .singleton id
  | cons next route ih =>
    rcases List.isChain_cons_cons.mp chain with ⟨step, rest⟩
    exact List.isChain_cons_cons.mpr ⟨keeps start id next stays way step, ih (way.tail step) rest⟩

end KeepsWays

/-! ## New scopes and moves -/

theorem around_createScope (region : Region) {around : ScopeId} (inside : table.HasScope around)
    (node : Tree.NodeId) (id outer : ScopeId) :
    (table.createScope region (some around) (some node)).1.Around id outer ↔
      (id = table.nextScope ∧ around = outer) ∨ (id ≠ table.nextScope ∧ table.Around id outer) := by
  unfold Around
  rw [scope_createScope region inside node]
  by_cases new : id = table.nextScope
  · simp [new, Scope.ofRegion]
  · cases read : table.scope id with
    | error fault => simp [new, Except.map]
    | ok scope => simp [new, Except.map]

theorem around_of_reparent {moved around : ScopeId} (done : table.reparent moved around = .ok after)
    {id outer : ScopeId} (other : id ≠ moved) : after.Around id outer ↔ table.Around id outer := by
  rcases of_reparent done with rfl | ⟨found, _, moves⟩
  · exact Iff.rfl
  unfold Around
  rw [moves.scopes]
  cases read : table.scope id with
  | error fault => simp [Except.map]
  | ok scope => simp [Except.map, movedScope, other]

/-- A header that is moved elsewhere lies there. -/
theorem around_reparent {moved around : ScopeId} (done : table.reparent moved around = .ok after)
    (other : moved ≠ around) : after.Around moved around := by
  rcases Outcome.of_bind done with ⟨found, read, same⟩
  split at same
  · next stays =>
    cases same
    exact ⟨found, read, stays.resolve_right other⟩
  · cases same
    unfold Around
    rw [scope_modifyScope, if_neg (Ne.symm other), scope_modifyScope, if_pos rfl]
    cases found.outer with
    | none => exact ⟨_, by rw [Option.elim_none, read]; rfl, rfl⟩
    | some previous =>
      rw [Option.elim_some, scope_modifyScope, read]
      split <;> exact ⟨_, rfl, rfl⟩

theorem keepsWays_reparent {moved around : ScopeId}
    (done : table.reparent moved around = .ok after) {declaration : Tree.NodeId}
    (isHeader : table.HasShape moved (.header declaration))
    (empty : ∀ id, ¬ table.Around id moved) (loose : moved ∉ settled) :
    KeepsWays settled table after := by
  intro start id outer stays way step
  refine (around_of_reparent done ?_).mpr step
  rintro rfl
  rcases Relation.ReflTransGen.cases_tail way with rfl | ⟨last, _, into⟩
  · exact stays.elim (fun isOpen => isOpen.ne isHeader rfl) loose
  · exact empty last into

/-- A new scope is housed if the scope around it leads out, or if it is made for a node inside a
function. -/
theorem Housed.createScope (housed : Housed table inner settled pending) {region : Region}
    {around : ScopeId} (inside : table.HasScope around) {node : Tree.NodeId}
    (leads : region.shape = .namespaceBody ∨ region.shape = .classBody →
      table.LeadsOut inner around ∨ node ∈ inner) :
    (table.createScope region (some around) (some node)).1.Housed inner settled pending := by
  have grows : table.Grows _ := grows_createScope region around node
  have notes := nodeScopes_createScope region inside node
  have more : table.nodeScopes ⊆
      (table.createScope region (some around) (some node)).1.nodeScopes := by
    rw [notes]
    exact List.subset_cons_self ..
  have steps : ∀ id outer, True → table.Around id outer →
      (table.createScope region (some around) (some node)).1.Around id outer ∧ True := by
    intro id outer _ step
    refine ⟨(around_createScope region inside node id outer).mpr (.inr ⟨?_, step⟩), trivial⟩
    rcases step with ⟨scope, read, _⟩
    exact ne_nextScope (hasScope_of_scope read)
  have shape : ∀ {id shape}, id ≠ table.nextScope →
      (table.createScope region (some around) (some node)).1.HasShape id shape →
      table.HasShape id shape := by
    rintro id shape old ⟨scope, read, same⟩
    rcases of_scope_createScope inside read with ⟨fresh, _⟩ | ⟨_, before, found, rfl⟩
    · exact absurd fresh old
    · exact ⟨before, found, same⟩
  refine housed.transport (fun _ => True) grows more steps ?_ fun _ _ => trivial
  intro id outer has step
  rcases (around_createScope region inside node id outer).mp step with ⟨rfl, rfl⟩ | ⟨old, before⟩
  · refine .inr ?_
    have own := hasShape_createScope region inside node
    have made : region.shape = .namespaceBody ∨ region.shape = .classBody :=
      has.imp (fun has => own.unique has) fun has => own.unique has
    refine (leads made).imp (fun leads => leads.transport _ grows more steps trivial) fun member => ?_
    refine ⟨node, member, ?_⟩
    rw [notes]
    exact List.mem_cons_self ..
  · exact .inl ⟨has.imp (shape old) (shape old), before, trivial⟩

/-- A header that is moved while nothing lies inside it is on no way but its own. -/
theorem Housed.reparent (housed : Housed table inner settled pending) {moved around : ScopeId}
    (done : table.reparent moved around = .ok after) (empty : ∀ id, ¬ table.Around id moved)
    {declaration : Tree.NodeId} (isHeader : table.HasShape moved (.header declaration))
    (loose : moved ∉ settled ∧ pending ≠ some moved) : Housed after inner settled pending := by
  have grows := grows_reparent done
  have notes : table.nodeScopes ⊆ after.nodeScopes := by
    rcases of_reparent done with rfl | ⟨_, _, moves⟩
    · exact List.Subset.refl _
    · rw [moves.nodeScopes]
      exact List.Subset.refl _
  have back : ∀ {id shape}, after.HasShape id shape → table.HasShape id shape := by
    rcases of_reparent done with rfl | ⟨_, _, moves⟩
    · exact id
    rintro id shape ⟨scope, read, same⟩
    rcases moves.of_scope read with ⟨before, found, rfl⟩
    exact ⟨before, found, same⟩
  have apart : ∀ {id outer}, table.Around id outer → outer ≠ moved := by
    rintro id outer step rfl
    exact empty id step
  refine housed.transport (· ≠ moved) grows notes ?_ ?_ ?_
  · exact fun id outer other step => ⟨(around_of_reparent done other).mpr step, apart step⟩
  · intro id outer has step
    have had : table.HasMembers id := has.imp back back
    have before := (around_of_reparent done (had.isOpen.ne isHeader)).mp step
    exact .inl ⟨had, before, apart before⟩
  · rintro header which rfl
    exact which.elim loose.1 loose.2

end Table
end CppNames
