import CppNames.Proofs.Lookup.Outward
import CppNames.Proofs.Table.Change
import Mathlib.Data.List.Perm.Subperm

namespace CppNames
namespace Table

/-!
# The scopes around a scope

The walk outwards from a scope lists the scopes around it.  It passes no scope twice, unless it
comes to one that lies inside itself, so it ends within as many steps as the table has scopes.
-/

variable {table : Table}

/-- There are no more different scopes than the table holds. -/
theorem length_le_of_nodup {passed : List ScopeId} (distinct : passed.Nodup)
    (inside : ∀ id ∈ passed, table.HasScope id) : passed.length ≤ table.scopes.size := by
  have indices : (passed.map ScopeId.index).Nodup :=
    distinct.map fun _ _ same => ScopeId.index_inj.mp same
  have bounded : passed.map ScopeId.index ⊆ List.range table.scopes.size := by
    intro index member
    rcases List.mem_map.mp member with ⟨id, among, rfl⟩
    exact List.mem_range.mpr (inside id among)
  simpa using (indices.subperm bounded).length_le

theorem enclosingWithin_last {steps : Nat} {id : ScopeId} {scope : Scope}
    (read : table.scope id = .ok scope) (alone : scope.outer = none) :
    table.enclosingWithin (steps + 1) id = .ok [(id, scope)] := by
  unfold enclosingWithin
  rw [read, show Except.ok scope = pure scope from rfl, pure_bind, alone]
  rfl

theorem enclosingWithin_step {steps : Nat} {id outer : ScopeId} {scope : Scope}
    (read : table.scope id = .ok scope) (around : scope.outer = some outer) :
    table.enclosingWithin (steps + 1) id =
      (table.enclosingWithin steps outer).map ((id, scope) :: ·) := by
  rw [enclosingWithin.eq_def]
  dsimp only
  rw [read, show Except.ok scope = pure scope from rfl, pure_bind, around]
  dsimp only
  cases table.enclosingWithin steps outer <;> rfl

/-- A walk that ends lists the scope it starts from, and then what the walk from the scope around it
lists. -/
theorem of_enclosingWithin {steps : Nat} {id : ScopeId} {chain : List (ScopeId × Scope)}
    (ran : table.enclosingWithin (steps + 1) id = .ok chain) :
    ∃ scope rest, table.scope id = .ok scope ∧ chain = (id, scope) :: rest ∧
      ∀ outer, scope.outer = some outer → table.enclosingWithin steps outer = .ok rest := by
  rcases Outcome.of_bind ran with ⟨scope, read, -⟩
  refine ⟨scope, ?_⟩
  cases around : scope.outer with
  | none =>
    rw [enclosingWithin_last read around] at ran
    cases ran
    exact ⟨[], read, rfl, fun _ impossible => by cases impossible⟩
  | some outer =>
    rw [enclosingWithin_step read around] at ran
    rcases Outcome.of_map ran with ⟨rest, inner, rfl⟩
    refine ⟨rest, read, rfl, ?_⟩
    rintro _ ⟨⟩
    exact inner

/-- The walk outwards ends, or it leads to a scope that lies inside itself. -/
theorem enclosingWithin_or_circle
    (leads : ∀ inner outer, table.Around inner outer → table.HasScope outer) (steps : Nat)
    {id : ScopeId} (passed : List ScopeId) (inside : table.HasScope id) (distinct : passed.Nodup)
    (behind : ∀ other ∈ passed, table.HasScope other ∧ Relation.TransGen table.Around other id)
    (room : passed.length + steps = table.scopes.size + 1) :
    (∃ chain, table.enclosingWithin steps id = .ok chain ∧
      passed.length + chain.length ≤ table.scopes.size) ∨
    ∃ circle, Relation.ReflTransGen table.Around id circle ∧
      Relation.TransGen table.Around circle circle := by
  induction steps generalizing id passed with
  | zero =>
    have few := length_le_of_nodup distinct fun other member => (behind other member).1
    omega
  | succ steps ih =>
    by_cases met : id ∈ passed
    · exact .inr ⟨id, .refl, (behind id met).2⟩
    have distinct : (id :: passed).Nodup := List.nodup_cons.mpr ⟨met, distinct⟩
    rcases scope_of_hasScope inside with ⟨scope, read⟩
    cases around : scope.outer with
    | none =>
      refine .inl ⟨[(id, scope)], enclosingWithin_last read around, ?_⟩
      exact length_le_of_nodup distinct
        (List.forall_mem_cons.mpr ⟨inside, fun other member => (behind other member).1⟩)
    | some outer =>
      have step : table.Around id outer := ⟨scope, read, around⟩
      have behind : ∀ other ∈ id :: passed,
          table.HasScope other ∧ Relation.TransGen table.Around other outer := by
        refine List.forall_mem_cons.mpr ⟨⟨inside, .single step⟩, fun other member => ?_⟩
        exact ⟨(behind other member).1, (behind other member).2.tail step⟩
      have room : (id :: passed).length + steps = table.scopes.size + 1 := by
        rw [List.length_cons]
        omega
      rcases ih (id :: passed) (leads id outer step) distinct behind room with
        ⟨chain, ran, few⟩ | ⟨circle, way, closed⟩
      · refine .inl ⟨(id, scope) :: chain, ?_, ?_⟩
        · rw [enclosingWithin_step read around, ran]
          rfl
        · rw [List.length_cons] at few ⊢
          omega
      · exact .inr ⟨circle, .head step way, closed⟩

/-- A scope and the scopes around it can be listed, and are no more than the table holds. -/
def Ends (table : Table) (id : ScopeId) : Prop :=
  ∃ chain, table.enclosing id = .ok chain ∧ chain.length ≤ table.scopes.size

theorem ends_or_circle_of_around
    (leads : ∀ inner outer, table.Around inner outer → table.HasScope outer) {id : ScopeId}
    (inside : table.HasScope id) :
    table.Ends id ∨ ∃ circle, Relation.ReflTransGen table.Around id circle ∧
      Relation.TransGen table.Around circle circle := by
  have walk := enclosingWithin_or_circle leads (table.scopes.size + 1) [] inside
    List.nodup_nil (fun _ member => absurd member List.not_mem_nil) (by simp)
  simpa [Ends, enclosing] using walk

/-- Where scopes do not enclose themselves, every walk outwards ends. -/
theorem Acyclic.ends (acyclic : table.Acyclic) (sound : table.Sound) {id : ScopeId}
    (inside : table.HasScope id) : table.Ends id := by
  have leads : ∀ inner outer, table.Around inner outer → table.HasScope outer := by
    rintro inner outer ⟨scope, read, around⟩
    exact (sound.scope read).outer outer (Option.mem_toList.mpr around)
  rcases ends_or_circle_of_around leads inside with ends | ⟨circle, _, closed⟩
  · exact ends
  · exact absurd closed (acyclic circle)

end Table
end CppNames
