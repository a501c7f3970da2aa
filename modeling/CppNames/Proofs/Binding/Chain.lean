import CppNames.Grammar.Parse
import CppNames.Proofs.Binding.Passes
import CppNames.Proofs.Binding.Stable
import CppNames.Table.Path

namespace CppNames

/-!
# Chains of type definitions

A type definition remembers the type that it names, which may be a type definition itself.  What it
names was found before it was declared, and a declaration that is merged with it leaves it as it
is.  So chains of type definitions lead to smaller and smaller indices: none of them runs in a
circle, and the number of symbols is more than enough to walk to their end.
-/

namespace Table

variable {table after : Table}

/-- Every type definition names an older symbol. -/
def ChainsDown (table : Table) : Prop :=
  ∀ id symbol target, table.symbol id = .ok symbol → symbol.kind = .typedefName (some target) →
    target.index < id.index

/-- A symbol that names no other one. -/
def IsFinal (table : Table) (id : SymbolId) : Prop :=
  ∃ symbol, table.symbol id = .ok symbol ∧ ∀ target, symbol.kind ≠ .typedefName (some target)

/-! ## Walking along a chain -/

/-- In front of the end of a chain there is at least one more step for every smaller index. -/
theorem ChainsDown.aliasedWithin (chains : table.ChainsDown) {steps : Nat} {id : SymbolId}
    (inside : table.HasSymbol id) (enough : id.index < steps) :
    ∃ final, table.aliasedWithin steps id = .ok final ∧ table.IsFinal final ∧
      final.index ≤ id.index := by
  induction steps generalizing id with
  | zero => exact absurd enough (Nat.not_lt_zero _)
  | succ steps ih =>
    rcases symbol_of_hasSymbol inside with ⟨symbol, read⟩
    unfold Table.aliasedWithin
    rw [read, Outcome.ok_bind]
    split
    · next target is =>
      have below := chains id symbol target read is
      have other : target ≠ id := by
        rintro rfl
        exact Nat.lt_irrefl _ below
      rw [if_neg other]
      rcases ih (Nat.lt_trans below inside) (Nat.lt_of_lt_of_le below (Nat.le_of_lt_succ enough)) with
        ⟨final, walks, ends, smaller⟩
      exact ⟨final, walks, ends, Nat.le_trans smaller (Nat.le_of_lt below)⟩
    · next plain => exact ⟨id, rfl, ⟨symbol, read, plain⟩, Nat.le_refl _⟩

/-- The end of a chain stands for itself. -/
theorem IsFinal.aliased {id : SymbolId} (final : table.IsFinal id) : table.aliased id = .ok id := by
  rcases final with ⟨symbol, read, plain⟩
  have inside : id.index < table.symbols.size := hasSymbol_of_symbol read
  unfold Table.aliased
  cases size : table.symbols.size with
  | zero => exact absurd (size ▸ inside) (Nat.not_lt_zero _)
  | succ steps =>
    unfold Table.aliasedWithin
    rw [read, Outcome.ok_bind]
    split
    · next target is => exact absurd is (plain target)
    · rfl

/-! ## Operations on the table -/

/-- Where no symbol changes what it is, chains stay what they are. -/
theorem ChainsDown.of_symbol (chains : table.ChainsDown)
    (same : ∀ id later, after.symbol id = .ok later →
      ∃ symbol, table.symbol id = .ok symbol ∧ later.kind = symbol.kind) : after.ChainsDown := by
  intro id later target read is
  rcases same id later read with ⟨symbol, before, kind⟩
  exact chains id symbol target before (kind ▸ is)

/-- What is merged with a type definition leaves it as it is, and makes nothing else one. -/
theorem mergedKind_eq_typedefName {old new : SymbolKind} {target : Option SymbolId}
    (is : mergedKind old new = .typedefName target) : old = .typedefName target := by
  cases old <;> cases new <;> cases is <;> rfl

theorem ChainsDown.declares (chains : table.ChainsDown) {scope : ScopeId} {symbol : Symbol}
    {answer : Except Refusal SymbolId}
    (there : ∀ target, symbol.kind = .typedefName (some target) → table.HasSymbol target)
    (done : table.Declares scope symbol after answer) : after.ChainsDown := by
  cases done with
  | refused => exact chains
  | again found id read judged =>
    intro other later target readLater is
    rcases of_symbol_modifySymbol readLater with ⟨old, before, rfl | ⟨-, rfl⟩⟩
    · exact chains other later target before is
    · exact chains other old target before (mergedKind_eq_typedefName is)
  | fresh found read judged =>
    intro other later target readLater is
    rw [symbol_modifyScope, symbol_withSymbol] at readLater
    split at readLater
    · next same =>
      cases readLater
      rw [same]
      exact there target is
    · exact chains other later target readLater is

theorem ChainsDown.setDefines (chains : table.ChainsDown) (id : SymbolId) (scope : ScopeId) :
    (table.modifySymbol id ({ · with defines := some scope })).ChainsDown := by
  refine chains.of_symbol fun other later read => ?_
  rcases of_symbol_modifySymbol read with ⟨old, before, rfl | ⟨-, rfl⟩⟩
  · exact ⟨later, before, rfl⟩
  · exact ⟨old, before, rfl⟩

/-- Binding makes chains that lead down. -/
theorem stable_chainsDown : Binding.Stable (fun _ => True) ChainsDown := by
  refine .ofSymbols (fun same chains => ?_) (fun id scope chains => chains.setDefines id scope)
    fun chains there _ done => chains.declares there (declares_of_declare done)
  refine chains.of_symbol fun id later read => ⟨later, ?_, rfl⟩
  unfold Table.symbol at read ⊢
  rwa [same] at read

end Table

theorem chainsDown_afterPasses (passes : List Pass) {bound : Bound}
    (chains : bound.table.ChainsDown) : (bound.afterPasses passes).table.ChainsDown := by
  induction passes generalizing bound with
  | nil => exact chains
  | cons pass rest ih =>
    exact ih (Table.stable_chainsDown.bind (fun _ _ => trivial) pass.file pass.options chains)

/-- However often whatever trees are bound, every type definition names an older symbol.  So every
chain of type definitions has an end, which is no type definition that names another symbol, and
the end stands for itself. -/
theorem aliased_afterPasses (passes : List Pass) (searchesBases : Bool) :
    (∀ id symbol target,
      ((Bound.fresh searchesBases).afterPasses passes).table.symbol id = .ok symbol →
        symbol.kind = .typedefName (some target) → target.index < id.index) ∧
    ∀ id, ((Bound.fresh searchesBases).afterPasses passes).table.HasSymbol id →
      ∃ final symbol,
        ((Bound.fresh searchesBases).afterPasses passes).table.aliased id = .ok final ∧
        ((Bound.fresh searchesBases).afterPasses passes).table.symbol final = .ok symbol ∧
        (∀ target, symbol.kind ≠ .typedefName (some target)) ∧
        ((Bound.fresh searchesBases).afterPasses passes).table.aliased final = .ok final := by
  have chains : ((Bound.fresh searchesBases).afterPasses passes).table.ChainsDown := by
    refine chainsDown_afterPasses passes fun id symbol target read => ?_
    exact absurd (Table.hasSymbol_of_symbol read) (Nat.not_lt_zero _)
  refine ⟨chains, fun id inside => ?_⟩
  rcases chains.aliasedWithin inside inside with ⟨final, walks, ends, -⟩
  rcases ends with ⟨symbol, read, plain⟩
  exact ⟨final, symbol, walks, read, plain, Table.IsFinal.aliased ⟨symbol, read, plain⟩⟩

/-- The theorem for two passes over a chain of two type definitions, which leads to a class. -/
theorem aliased_afterPasses_class : ∃ parsed,
    parse "a.cc" "struct S {}; typedef S T; typedef T U;" {} = .ok parsed ∧
    ∃ table, table = ((Bound.fresh true).afterPasses
        [⟨"a.cc", {}, parsed.tree⟩, ⟨"a.cc", {}, parsed.tree⟩]).table ∧
      (∃ symbol, table.symbol ⟨2⟩ = .ok symbol ∧ symbol.kind = .typedefName (some ⟨1⟩) ∧ 1 < 2) ∧
      table.HasSymbol ⟨2⟩ ∧ ∃ symbol, table.aliased ⟨2⟩ = .ok ⟨0⟩ ∧
        table.symbol ⟨0⟩ = .ok symbol ∧ (∀ target, symbol.kind ≠ .typedefName (some target)) ∧
        table.aliased ⟨0⟩ = .ok ⟨0⟩ := by
  have passes : (parse "a.cc" "struct S {}; typedef S T; typedef T U;" {}).toOption.map
      (fun parsed =>
        let table := ((Bound.fresh true).afterPasses
          [⟨"a.cc", {}, parsed.tree⟩, ⟨"a.cc", {}, parsed.tree⟩]).table
        ((table.symbol ⟨2⟩).toOption.map (·.kind), (table.aliased ⟨2⟩).toOption)) =
        some (some (.typedefName (some ⟨1⟩)), some ⟨0⟩) := by decide +kernel
  cases parses : parse "a.cc" "struct S {}; typedef S T; typedef T U;" {} with
  | error stop => rw [parses] at passes; cases passes
  | ok parsed =>
    rw [parses] at passes
    rcases Prod.mk.inj (Option.some.inj passes) with ⟨kind, walks⟩
    refine ⟨parsed, rfl, _, rfl, ?_⟩
    rcases aliased_afterPasses [⟨"a.cc", {}, parsed.tree⟩, ⟨"a.cc", {}, parsed.tree⟩] true with
      ⟨older, ends⟩
    generalize ((Bound.fresh true).afterPasses
      [⟨"a.cc", {}, parsed.tree⟩, ⟨"a.cc", {}, parsed.tree⟩]).table = table at kind walks older ends ⊢
    cases read : table.symbol ⟨2⟩ with
    | error fault => rw [read] at kind; cases kind
    | ok symbol =>
      rw [read] at kind
      have isTypedef : symbol.kind = .typedefName (some ⟨1⟩) := Option.some.inj kind
      have inside : table.HasSymbol ⟨2⟩ := Table.hasSymbol_of_symbol read
      rcases ends ⟨2⟩ inside with ⟨final, last, reaches, readLast, plain, stays⟩
      rw [reaches] at walks
      obtain rfl : final = ⟨0⟩ := Option.some.inj walks
      exact ⟨⟨symbol, rfl, isTypedef, older ⟨2⟩ symbol ⟨1⟩ read isTypedef⟩, inside, last, reaches,
        readLast, plain, stays⟩

end CppNames
