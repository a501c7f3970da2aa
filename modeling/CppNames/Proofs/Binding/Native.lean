import CppNames.Proofs.Binding.Passes
import CppNames.Proofs.Binding.Stable
import CppNames.Proofs.Table.Representative

namespace CppNames

/-!
# Symbols of other scopes

A declaration is compared with all symbols of its name in its scope.  Most of them were declared
there.  A using-declaration adds symbols that belong elsewhere, and so does whoever enters a
symbol that names another scope as its own.  A declaration that such a symbol may be merged with
is merged with it: what is declared here then becomes a declaration, or even the definition, of
something that was only made visible here.

`Table.Native` says of a table that the symbols of a name belong to their scope, apart from names
that were opened to others.  It is stable under binding, so it holds behind any history of
operations and passes, and `declare_native` tells the two ways in which a declaration can come
out: with a symbol of its own scope, or, where the name was opened, merged with a foreign one.
-/

namespace Table

/-- The symbols of a name belong to the scope, unless the name was opened there. -/
def Native (opened : ScopeId → Encoding → Prop) (table : Table) : Prop :=
  ∀ id scope, table.scope id = .ok scope → ∀ name, ¬ opened id name →
    ∀ member ∈ scope.named name, ∃ symbol, table.symbol member = .ok symbol ∧ symbol.scope = id

namespace Native

variable {opened : ScopeId → Encoding → Prop} {table after : Table}

/-- A symbol that stays in its scope. -/
def Stays (old later : Symbol) : Prop := later.scope = old.scope

theorem stays_refl (symbol : Symbol) : Stays symbol symbol := rfl

/-- Where no name comes in and every symbol stays in its scope, nothing foreign comes in. -/
theorem frame (keeps : KeepsNames Stays table after)
    (native : table.Native opened) : after.Native opened := by
  intro id scope read name closed member among
  rcases keeps.named read among with ⟨old, before, same⟩
  rcases native id old before name closed member (same ▸ among) with ⟨symbol, found, own⟩
  rcases keeps.symbols member symbol found with ⟨later, foundLater, kept⟩
  exact ⟨later, foundLater, kept.trans own⟩

theorem withSymbol (native : table.Native opened) (symbol : Symbol) :
    (table.withSymbol symbol).Native opened := frame (.withSymbol stays_refl symbol) native

/-- A symbol comes under a name of its own scope, or under one that is opened. -/
theorem enter (native : table.Native opened) {target : ScopeId} {name : Encoding} {id : SymbolId}
    (allowed : opened target name ∨ ∃ symbol, table.symbol id = .ok symbol ∧ symbol.scope = target) :
    (table.modifyScope target (·.bind name id)).Native opened := by
  intro other scope read key closed member among
  rcases of_mem_named_bind read among with ⟨old, before, known | ⟨rfl, rfl, rfl⟩⟩
  · exact native other old before key closed member known
  · exact allowed.resolve_left closed

/-- A symbol is declared in its own scope. -/
theorem declare (native : table.Native opened) {scope : ScopeId} {symbol : Symbol}
    {answer : Except Refusal SymbolId} (own : opened scope symbol.name ∨ symbol.scope = scope)
    (done : table.declare scope symbol = .ok (after, answer)) : after.Native opened := by
  cases declares_of_declare done with
  | fresh found read judged =>
    refine (native.withSymbol symbol).enter (own.imp_right fun own => ⟨symbol, ?_, own⟩)
    exact (symbol_withSymbol ..).trans (if_pos rfl)
  | again found id read judged => exact frame (.modifySymbol id stays_refl fun _ => rfl) native
  | refused found refusal read shared => exact native

theorem addSymbol (native : table.Native opened) {scope : ScopeId} {symbol : Symbol}
    (own : opened scope symbol.name ∨ symbol.scope = scope) :
    (table.addSymbol scope symbol).1.Native opened := by
  unfold Table.addSymbol
  dsimp only
  split
  · refine (native.withSymbol symbol).enter (own.imp_right fun own => ⟨symbol, ?_, own⟩)
    exact (symbol_withSymbol ..).trans (if_pos rfl)
  · exact native.withSymbol symbol

theorem makeVisible (native : table.Native opened) {scope : ScopeId} {name : Encoding}
    {id : SymbolId} {fresh : Bool} (opens : opened scope name)
    (done : table.makeVisible scope name id = .ok (after, fresh)) : after.Native opened := by
  rcases of_makeVisible done with ⟨found, read, rfl⟩
  exact native.enter (.inl opens)

/-- Binding brings foreign symbols in by using-declarations only. -/
theorem stable :
    Binding.Stable (Binding.MayUse fun key => ∀ scope, opened scope key) (Native opened) := by
  refine .ofNames stays_refl (fun _ _ => rfl) frame ?_ fun native ⟨node, opens, uses⟩ _ done =>
    native.makeVisible (opens _ uses _) done
  intro table name kind type scope node span after answer native done
  have own : (Symbol.ofDeclaration name kind type scope node span).scope = scope := rfl
  exact native.declare (.inr own) done

end Native
end Table

/-! ## Histories of a table -/

/-- Something that is done to a table. -/
inductive Deed where
  | createScope (region : Region) (outer : Option ScopeId) (node : Option Tree.NodeId)
  | declare (scope : ScopeId) (symbol : Symbol)
  | addSymbol (scope : ScopeId) (symbol : Symbol)
  | makeVisible (scope : ScopeId) (name : Encoding) (id : SymbolId)
  | bind (pass : Pass)

namespace Deed

/-- What is there after a deed.  An operation that fails changes nothing, apart from what it
entered before. -/
def apply (bound : Bound) : Deed → Bound
  | createScope region outer node =>
    { bound with table := (bound.table.createScope region outer node).1 }
  | declare scope symbol =>
    match bound.table.declare scope symbol with
    | .ok (after, _) => { bound with table := after }
    | .error _ => bound
  | addSymbol scope symbol => { bound with table := (bound.table.addSymbol scope symbol).1 }
  | makeVisible scope name id =>
    match bound.table.makeVisible scope name id with
    | .ok (after, _) => { bound with table := after }
    | .error _ => bound
  | bind pass => (CppNames.bind pass.file pass.options pass.tree bound).1

/-- Whether a deed may bring symbols of other scopes under a name of a scope. -/
def Opens (scope : ScopeId) (name : Encoding) : Deed → Prop
  | createScope .. => False
  | declare target symbol | addSymbol target symbol =>
    target = scope ∧ symbol.name = name ∧ symbol.scope ≠ target
  | makeVisible target key _ => target = scope ∧ key = name
  | bind pass => ∃ node ∈ pass.tree.preorder, Binding.usedName? node = some name

end Deed

/-- What is there after some deeds. -/
def Bound.afterDeeds (bound : Bound) (deeds : List Deed) : Bound := deeds.foldl Deed.apply bound

namespace Table.Native

variable {opened : ScopeId → Encoding → Prop} {bound : Bound}

theorem apply (native : bound.table.Native opened) {deed : Deed}
    (opens : ∀ scope name, deed.Opens scope name → opened scope name) :
    (deed.apply bound).table.Native opened := by
  have own : ∀ {scope : ScopeId} {symbol : Symbol},
      (symbol.scope ≠ scope → opened scope symbol.name) →
        opened scope symbol.name ∨ symbol.scope = scope := fun foreign =>
    (Classical.em _).symm.imp_left foreign
  cases deed with
  | createScope region outer node => exact frame (.createScope stays_refl region outer node) native
  | declare scope symbol =>
    unfold Deed.apply
    dsimp only
    split
    · next after answer done =>
      exact native.declare (own fun foreign => opens _ _ ⟨rfl, rfl, foreign⟩) done
    · exact native
  | addSymbol scope symbol =>
    exact native.addSymbol (own fun foreign => opens _ _ ⟨rfl, rfl, foreign⟩)
  | makeVisible scope name id =>
    unfold Deed.apply
    dsimp only
    split
    · next after fresh done => exact native.makeVisible (opens _ _ ⟨rfl, rfl⟩) done
    · exact native
  | bind pass =>
    refine stable.bind (fun node member key names scope => ?_) pass.file pass.options native
    exact opens scope key ⟨node, member, names⟩

theorem afterDeeds (native : bound.table.Native opened) {deeds : List Deed}
    (opens : ∀ deed ∈ deeds, ∀ scope name, deed.Opens scope name → opened scope name) :
    (bound.afterDeeds deeds).table.Native opened := by
  induction deeds generalizing bound with
  | nil => exact native
  | cons first rest ih =>
    rcases List.forall_mem_cons.mp opens with ⟨one, others⟩
    exact ih (native.apply one) others

theorem fresh (searchesBases : Bool) : (Bound.fresh searchesBases).table.Native opened := by
  intro id scope read name closed member among
  rcases of_scope_initial searchesBases read with ⟨rfl, rfl⟩
  exact absurd among List.not_mem_nil

end Table.Native

open Table in
/-- A symbol that is declared in its own scope, after whatever was done to the table, comes out
as a symbol of that scope.  The only exception is a name that some deed opened to symbols of
other scopes: then the declaration may be merged with one of those. -/
theorem declare_native (deeds : List Deed) (searchesBases : Bool) (symbol : Symbol)
    {after : Table} {id : SymbolId}
    (done : ((Bound.fresh searchesBases).afterDeeds deeds).table.declare symbol.scope symbol =
      .ok (after, .ok id)) :
    ∃ found, after.symbol id = .ok found ∧
      (found.scope = symbol.scope ∨
        (∃ deed ∈ deeds, deed.Opens symbol.scope symbol.name) ∧
          ∃ old, ((Bound.fresh searchesBases).afterDeeds deeds).table.symbol id = .ok old ∧
            old.scope ≠ symbol.scope ∧ Merges id old.kind symbol.kind ∧
            found = merged old symbol) := by
  have native : ((Bound.fresh searchesBases).afterDeeds deeds).table.Native
      fun scope name => ∃ deed ∈ deeds, deed.Opens scope name :=
    (Native.fresh searchesBases).afterDeeds fun deed member _ _ opens => ⟨deed, member, opens⟩
  cases declares_of_declare done with
  | fresh found read judged => exact ⟨symbol, (symbol_withSymbol ..).trans (if_pos rfl), .inl rfl⟩
  | again found id read judged =>
    rcases of_judge_again judged with ⟨among, old, readOld, merges⟩
    refine ⟨merged old symbol, ?_, ?_⟩
    · rw [symbol_modifySymbol, if_pos rfl, readOld]
      rfl
    by_cases own : old.scope = symbol.scope
    · exact .inl own
    · refine .inr ⟨?_, old, readOld, own, merges_of_relation merges, rfl⟩
      -- a name that nothing opened has symbols of its scope only
      by_contra closed
      rcases native symbol.scope found read symbol.name closed id among with ⟨known, again, same⟩
      rw [readOld] at again
      cases again
      exact own same

/-- What `namespace A { extern int x; } namespace B { using A::x; }` does to a table.  The names
have one byte each. -/
def usedVariable : List Deed :=
  [.createScope (.namespaceBody ⟨[0x81, 0x41]⟩ [1] []) (some Table.global) (some 1),
  .declare ⟨1⟩ (.ofDeclaration ⟨[0x81, 0x78]⟩ (.object false) ⟨[0x69]⟩ ⟨1⟩ 12 (some ⟨25, 1⟩)),
  .createScope (.namespaceBody ⟨[0x81, 0x42]⟩ [20] []) (some Table.global) (some 20),
  .makeVisible ⟨2⟩ ⟨[0x81, 0x78]⟩ ⟨0⟩]

/-- The variable `int x;` in the second namespace. -/
def variableBehind : Symbol :=
  .ofDeclaration ⟨[0x81, 0x78]⟩ (.object true) ⟨[0x69]⟩ ⟨2⟩ 32 (some ⟨60, 1⟩)

open Table in
/-- A variable defined in one namespace becomes the definition of a variable of another one that
a using-declaration made visible there. -/
theorem declare_native_usedVariable :
    ∃ after, ((Bound.fresh true).afterDeeds usedVariable).table.declare variableBehind.scope
        variableBehind = .ok (after, .ok ⟨0⟩) ∧
      ∃ found, after.symbol ⟨0⟩ = .ok found ∧ found.scope = ⟨1⟩ ∧ found.node = 32 ∧
        (found.scope = variableBehind.scope ∨
          (∃ deed ∈ usedVariable, deed.Opens variableBehind.scope variableBehind.name) ∧
            ∃ old, ((Bound.fresh true).afterDeeds usedVariable).table.symbol ⟨0⟩ = .ok old ∧
              old.scope ≠ variableBehind.scope ∧ Merges ⟨0⟩ old.kind variableBehind.kind ∧
              found = merged old variableBehind) := by
  refine ⟨_, rfl, ?_⟩
  rcases declare_native usedVariable true variableBehind rfl with ⟨found, read, outcome⟩
  refine ⟨found, read, ?_, ?_, outcome⟩
  · cases read
    rfl
  · cases read
    rfl

open Encoding (simpleName) in
/-- The table in the body of `struct S {}`, which is the scope behind the global one. -/
def openClass : Table :=
  ((Bound.fresh true).afterDeeds
    [.createScope (.classBody (simpleName "S") 1 []) (some Table.global) (some 1),
    .declare Table.global { Symbol.ofDeclaration (simpleName "S") (.classType true) (simpleName "S")
      Table.global 1 none with defines := some ⟨1⟩ }]).table

end CppNames
