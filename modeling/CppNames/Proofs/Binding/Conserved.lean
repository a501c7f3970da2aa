import CppNames.Proofs.Binding.Passes
import CppNames.Proofs.Binding.Stable

namespace CppNames

/-!
# Declarations are neither lost nor repeated

A declaration changes a table in one of three ways.  If it is refused, it changes nothing.  If it
is new, the table has one more symbol, which comes last under its name.  If it declares a symbol
again, only this symbol changes: it gets one more declaring node behind those that it has, and more
may become known of it.  So every declaration that is not refused adds exactly one declaring node,
and in a table that operations put together there are as many of them as there were such
declarations.
-/

/-! ## One symbol -/

/-- What becomes known of a symbol: it is defined, it has more default arguments, or it is a
variable whose value is known.  What kind of symbol it is stays. -/
inductive SymbolKind.Learns : SymbolKind → SymbolKind → Prop where
  | same (kind : SymbolKind) : Learns kind kind
  | object {before after : Bool} (kept : before = true → after = true) :
    Learns (.object before) (.object after)
  | value (defined : Bool) (value : Option Int64) : Learns (.object defined) (.constant value)
  | classType {before after : Bool} (kept : before = true → after = true) :
    Learns (.classType before) (.classType after)
  | classTemplate {before after : Bool} (kept : before = true → after = true) :
    Learns (.classTemplate before) (.classTemplate after)
  | function {before after : Bool} {parameters few many : Nat} {ellipsis : Bool}
      (more : few ≤ many) (kept : before = true → after = true) :
    Learns (.function ⟨parameters, few, ellipsis⟩ before)
      (.function ⟨parameters, many, ellipsis⟩ after)
  | functionTemplate {before after : Bool} {parameters few many : Nat} {ellipsis : Bool}
      (more : few ≤ many) (kept : before = true → after = true) :
    Learns (.functionTemplate ⟨parameters, few, ellipsis⟩ before)
      (.functionTemplate ⟨parameters, many, ellipsis⟩ after)

namespace SymbolKind.Learns

variable {before after : SymbolKind}

/-- A symbol that is defined stays defined. -/
theorem isDefined (learns : before.Learns after) (defined : before.isDefined = true) :
    after.isDefined = true := by
  cases learns with
  | same => exact defined
  | value => rfl
  | object kept | classType kept | classTemplate kept => exact kept defined
  | function more kept | functionTemplate more kept => exact kept defined

/-- Default arguments stay, and a function takes as many parameters as before. -/
theorem signature? (learns : before.Learns after) {signature : Signature}
    (has : before.signature? = some signature) : ∃ later, after.signature? = some later ∧
      later.parameters = signature.parameters ∧ later.ellipsis = signature.ellipsis ∧
      signature.defaults ≤ later.defaults := by
  cases learns with
  | same => exact ⟨signature, has, rfl, rfl, Nat.le_refl _⟩
  | object | value | classType | classTemplate => cases has
  | function more kept | functionTemplate more kept =>
    cases has
    exact ⟨_, rfl, rfl, rfl, more⟩

/-- Only a variable may become something else, and then it is a constant. -/
theorem family (learns : before.Learns after) : after.family = before.family := by
  cases learns <;> rfl

end SymbolKind.Learns

/-- What one more declaration may change of a symbol. -/
structure Symbol.Gains (old : Symbol) (declaration : Symbol) (new : Symbol) : Prop where
  declarations : new.declarations = old.declarations ++ [declaration.node]
  name : new.name = old.name
  type : new.type = old.type
  scope : new.scope = old.scope
  defines : new.defines = old.defines
  kind : old.kind.Learns new.kind
  place : new.node = old.node ∧ new.span = old.span ∨
    new.node = declaration.node ∧ new.span = declaration.span

namespace Table

theorem learns_mergedKind (old new : SymbolKind) : old.Learns (mergedKind old new) := by
  cases old <;> cases new <;> first
    | exact .same _
    | exact .value _ _
    | exact .object fun defined => by simp [defined]
    | exact .classType fun defined => by simp [defined]
    | exact .classTemplate fun defined => by simp [defined]
    | exact .function (Nat.le_max_left _ _) fun defined => by simp [defined]
    | exact .functionTemplate (Nat.le_max_left _ _) fun defined => by simp [defined]

theorem gains_merged (old declaration : Symbol) :
    old.Gains declaration (merged old declaration) where
  declarations := rfl
  name := rfl
  type := rfl
  scope := rfl
  defines := rfl
  kind := learns_mergedKind old.kind declaration.kind
  place := by
    unfold merged
    dsimp only
    cases (declaration.isDefined && !old.isDefined) with
    | false => exact .inl ⟨rfl, rfl⟩
    | true => exact .inr ⟨rfl, rfl⟩

/-! ## One declaration -/

variable {table after : Table} {scope : ScopeId} {symbol : Symbol}

/-- A table with one more symbol, which comes last under its name in a scope, and nothing else
changed. -/
structure Appends (table : Table) (scope : ScopeId) (symbol : Symbol) (after : Table) : Prop where
  symbols : after.symbols = table.symbols.push symbol
  bound : ∃ found later, table.scope scope = .ok found ∧ after.scope scope = .ok later ∧
    later.region = found.region ∧ later.outer = found.outer ∧ later.nested = found.nested ∧
    later.named symbol.name = found.named symbol.name ++ [table.nextSymbol] ∧
    ∀ name, name ≠ symbol.name → later.named name = found.named name
  scopes : ∀ other, other ≠ scope → after.scope other = table.scope other
  nodeScopes : after.nodeScopes = table.nodeScopes
  searchesBases : after.searchesBases = table.searchesBases

/-- A table in which one symbol has one more declaration, and nothing else changed. -/
structure Redeclares (table : Table) (id : SymbolId) (symbol : Symbol) (after : Table) : Prop where
  size : after.symbols.size = table.symbols.size
  gains : ∃ old new, table.symbol id = .ok old ∧ after.symbol id = .ok new ∧ old.Gains symbol new
  symbols : ∀ other, other ≠ id → after.symbol other = table.symbol other
  scopes : after.scopes = table.scopes
  nodeScopes : after.nodeScopes = table.nodeScopes
  searchesBases : after.searchesBases = table.searchesBases

/-- What a declaration does to a table, and its answer. -/
inductive DeclaresAtomically (table : Table) (scope : ScopeId) (symbol : Symbol) :
    Table → Except Refusal SymbolId → Prop where
  | refused (refusal : Refusal) : DeclaresAtomically table scope symbol table (.error refusal)
  | appended {after : Table} (appends : table.Appends scope symbol after) :
    DeclaresAtomically table scope symbol after (.ok table.nextSymbol)
  | redeclared {after : Table} {id : SymbolId} (redeclares : table.Redeclares id symbol after) :
    DeclaresAtomically table scope symbol after (.ok id)

theorem appends_enter {found : Scope} (read : table.scope scope = .ok found)
    (unused : table.nextSymbol ∉ found.named symbol.name) :
    table.Appends scope symbol (table.enter scope symbol) where
  symbols := rfl
  bound := by
    refine ⟨found, _, read, scope_enter read symbol, rfl, rfl, rfl, ?_, fun name other => ?_⟩
    · rw [Scope.named_bind, if_pos rfl, Region.including, if_neg unused]
    · rw [Scope.named_bind, if_neg (Ne.symm other)]
  scopes other differs := by
    unfold enter
    rw [scope_modifyScope, if_neg (Ne.symm differs), scope_withSymbol]
  nodeScopes := rfl
  searchesBases := rfl

theorem redeclares_modifySymbol {id : SymbolId} {old : Symbol} (read : table.symbol id = .ok old)
    (symbol : Symbol) : table.Redeclares id symbol (table.modifySymbol id (merged · symbol)) where
  size := Array.size_modify
  gains := by
    refine ⟨old, merged old symbol, read, ?_, gains_merged old symbol⟩
    rw [symbol_modifySymbol, if_pos rfl, read]
    rfl
  symbols other differs := by rw [symbol_modifySymbol, if_neg (Ne.symm differs)]
  scopes := rfl
  nodeScopes := rfl
  searchesBases := rfl

theorem declaresAtomically_of_declare {answer : Except Refusal SymbolId}
    (done : table.declare scope symbol = .ok (after, answer)) :
    table.DeclaresAtomically scope symbol after answer := by
  cases declares_of_declare done with
  | refused found refusal read shared => exact .refused refusal
  | again found id read judged =>
    rcases of_judge_again judged with ⟨-, old, readOld, -⟩
    exact .redeclared (redeclares_modifySymbol readOld symbol)
  | fresh found read judged =>
    refine .appended (appends_enter read fun member => ?_)
    rcases of_judge_fresh judged _ member with ⟨old, readOld, -⟩
    exact ne_nextSymbol (hasSymbol_of_symbol readOld) rfl

/-! ## Counting declarations -/

/-- How many declaring nodes the symbols of a table have. -/
def declarationCount (table : Table) : Nat :=
  (table.symbols.toList.flatMap (·.declarations)).length

theorem declarationCount_of_symbols (same : after.symbols = table.symbols) :
    after.declarationCount = table.declarationCount := by
  unfold declarationCount
  rw [same]

theorem declarationCount_push (pushed : after.symbols = table.symbols.push symbol) :
    after.declarationCount = table.declarationCount + symbol.declarations.length := by
  unfold declarationCount
  rw [pushed, Array.toList_push, List.flatMap_append, List.flatMap_singleton, List.length_append]

/-- Where one symbol changes, the number changes by as much as its own. -/
theorem declarationCount_modifySymbol {id : SymbolId} {old : Symbol}
    (read : table.symbol id = .ok old) (change : Symbol → Symbol) :
    (table.modifySymbol id change).declarationCount + old.declarations.length =
      table.declarationCount + (change old).declarations.length := by
  have there : table.symbols.toList[id.index]? = some old := by
    rw [Array.getElem?_toList]
    exact symbol_eq_ok_iff.mp read
  rcases List.getElem?_eq_some_iff.mp there with ⟨inside, same⟩
  unfold declarationCount modifySymbol
  dsimp only
  have parts : table.symbols.toList =
      table.symbols.toList.take id.index ++ old :: table.symbols.toList.drop (id.index + 1) := by
    rw [← same, List.getElem_cons_drop, List.take_append_drop]
  rw [Array.toList_modify, List.modify_eq_take_cons_drop inside, same]
  conv_rhs => rw [parts]
  simp only [List.flatMap_append, List.flatMap_cons, List.length_append]
  omega

/-- A symbol that gets a scope has as many declaring nodes as before. -/
theorem declarationCount_setDefines (id : SymbolId) (scope : ScopeId) :
    (table.modifySymbol id ({ · with defines := some scope })).declarationCount =
      table.declarationCount := by
  by_cases inside : table.HasSymbol id
  · rcases symbol_of_hasSymbol inside with ⟨symbol, read⟩
    exact Nat.add_right_cancel (declarationCount_modifySymbol read _)
  · refine declarationCount_of_symbols ?_
    unfold modifySymbol
    dsimp only
    rw [← Array.toList_inj, Array.toList_modify, List.modify_eq_self (Nat.le_of_not_lt inside)]

/-! ## Tables that operations put together -/

/-- A table that operations put together, with the number of symbols that were declared without
being refused, or added. -/
inductive Assembled : Nat → Table → Prop where
  | initial : Assembled 0 initial
  | searching {count : Nat} {table : Table} (assembled : Assembled count table) (searches : Bool) :
    Assembled count { table with searchesBases := searches }
  | createScope {count : Nat} {table : Table} (assembled : Assembled count table) (region : Region)
      (outer : Option ScopeId) (node : Option Tree.NodeId) :
    Assembled count (table.createScope region outer node).1
  | declared {count : Nat} {table after : Table} {scope : ScopeId} {symbol : Symbol}
      {id : SymbolId} (assembled : Assembled count table)
      (single : symbol.declarations = [symbol.node])
      (done : table.declare scope symbol = .ok (after, .ok id)) : Assembled (count + 1) after
  | refused {count : Nat} {table after : Table} {scope : ScopeId} {symbol : Symbol}
      {refusal : Refusal} (assembled : Assembled count table)
      (done : table.declare scope symbol = .ok (after, .error refusal)) : Assembled count after
  | added {count : Nat} {table after : Table} {scope : ScopeId} {symbol : Symbol} {id : SymbolId}
      (assembled : Assembled count table) (single : symbol.declarations = [symbol.node])
      (done : table.addSymbol scope symbol = (after, .ok id)) : Assembled (count + 1) after
  | makeVisible {count : Nat} {table after : Table} {scope : ScopeId} {name : Encoding}
      {id : SymbolId} {fresh : Bool} (assembled : Assembled count table) (inside : table.HasSymbol id)
      (done : table.makeVisible scope name id = .ok (after, fresh)) : Assembled count after
  | addNominated {count : Nat} {table after : Table} {scope target : ScopeId} {able : Bool}
      (assembled : Assembled count table)
      (done : table.addNominated scope target = .ok (after, able)) : Assembled count after
  | addBase {count : Nat} {table after : Table} {scope base : ScopeId} {fresh : Bool}
      (assembled : Assembled count table) (done : table.addBase scope base = .ok (after, fresh)) :
    Assembled count after
  | addFragment {count : Nat} {table : Table} (assembled : Assembled count table) (scope : ScopeId)
      (node : Tree.NodeId) : Assembled count (table.addFragment scope node)
  | setNodeScope {count : Nat} {table : Table} (assembled : Assembled count table)
      (node : Tree.NodeId) (scope : ScopeId) : Assembled count (table.setNodeScope node scope)
  | setDefines {count : Nat} {table : Table} (assembled : Assembled count table) (id : SymbolId)
      (scope : ScopeId) :
    Assembled count (table.modifySymbol id ({ · with defines := some scope }))
  | reparent {count : Nat} {table after : Table} {scope outer : ScopeId}
      (assembled : Assembled count table) (done : table.reparent scope outer = .ok after) :
    Assembled count after

/-- A symbol is added under its name if the scope is there. -/
theorem of_addSymbol {id : SymbolId} (done : table.addSymbol scope symbol = (after, .ok id)) :
    after = table.enter scope symbol := by
  unfold addSymbol at done
  dsimp only at done
  split at done
  · exact (Prod.mk.inj done).1.symm
  · cases (Prod.mk.inj done).2

theorem declarationCount_enter (scope : ScopeId) (single : symbol.declarations = [symbol.node]) :
    (table.enter scope symbol).declarationCount = table.declarationCount + 1 := by
  have pushed : (table.enter scope symbol).declarationCount =
      table.declarationCount + symbol.declarations.length := declarationCount_push rfl
  rwa [single] at pushed

/-- A declaration that is not refused adds one declaring node. -/
theorem declarationCount_of_declare {id : SymbolId}
    (single : symbol.declarations = [symbol.node])
    (done : table.declare scope symbol = .ok (after, .ok id)) :
    after.declarationCount = table.declarationCount + 1 := by
  cases declares_of_declare done with
  | fresh found read judged => exact declarationCount_enter scope single
  | again found id read judged =>
    rcases of_judge_again judged with ⟨-, old, readOld, -⟩
    have changed := declarationCount_modifySymbol readOld (merged · symbol)
    have longer : (merged old symbol).declarations.length = old.declarations.length + 1 :=
      List.length_append
    omega

/-- Every symbol under a name is in the table. -/
def NamesSymbols (table : Table) : Prop :=
  ∀ id found, table.scope id = .ok found → ∀ name, table.AllThere (found.named name)

namespace NamesSymbols

theorem frame (keeps : KeepsNames (fun _ _ => True) table after) (names : table.NamesSymbols) :
    after.NamesSymbols := by
  intro id found read name member among
  rcases keeps.named read among with ⟨old, before, same⟩
  rcases symbol_of_hasSymbol (names id old before name member (same ▸ among)) with ⟨symbol, there⟩
  rcases keeps.symbols member symbol there with ⟨later, readLater, -⟩
  exact hasSymbol_of_symbol readLater

theorem bind (names : table.NamesSymbols) (target : ScopeId) (name : Encoding) {id : SymbolId}
    (inside : table.HasSymbol id) :
    (table.modifyScope target (·.bind name id)).NamesSymbols := by
  intro other found read key member among
  rcases of_mem_named_bind read among with ⟨old, before, known | ⟨-, -, rfl⟩⟩
  · exact names other old before key member known
  · exact inside

theorem enter (names : table.NamesSymbols) (scope : ScopeId) (symbol : Symbol) :
    (table.enter scope symbol).NamesSymbols := by
  have pushed : (table.withSymbol symbol).NamesSymbols :=
    frame (.withSymbol (fun _ => trivial) symbol) names
  refine pushed.bind scope symbol.name ?_
  exact hasSymbol_of_symbol ((symbol_withSymbol ..).trans (if_pos rfl))

theorem declares (names : table.NamesSymbols) {answer : Except Refusal SymbolId}
    (done : table.Declares scope symbol after answer) : after.NamesSymbols := by
  cases done with
  | fresh => exact names.enter scope symbol
  | again found id read judged =>
    exact frame (.modifySymbol id (fun _ => trivial) fun _ => trivial) names
  | refused => exact names

end NamesSymbols

/-- In a scope of such a table every declaration has an answer. -/
theorem NamesSymbols.exists_declare (names : table.NamesSymbols) (inside : table.HasScope scope)
    (symbol : Symbol) :
    ∃ after answer, table.declare scope symbol = .ok (after, answer) := by
  rcases scope_of_hasScope inside with ⟨found, read⟩
  rcases exists_verdict symbol read (names scope found read symbol.name) with ⟨verdict, judged⟩
  rcases declare_of_verdict read judged with ⟨after, done⟩
  exact ⟨after, _, done⟩

/-- A table that operations made, whatever was declared, and however it was counted. -/
inductive Made : Table → Prop where
  | initial : Made initial
  | searching {table : Table} (made : Made table) (searches : Bool) :
    Made { table with searchesBases := searches }
  | createScope {table : Table} (made : Made table) (region : Region) (outer : Option ScopeId)
      (node : Option Tree.NodeId) : Made (table.createScope region outer node).1
  | declare {table after : Table} {scope : ScopeId} {symbol : Symbol}
      {answer : Except Refusal SymbolId} (made : Made table)
      (done : table.declare scope symbol = .ok (after, answer)) : Made after
  | addSymbol {table : Table} (made : Made table) (scope : ScopeId) (symbol : Symbol) :
    Made (table.addSymbol scope symbol).1
  | makeVisible {table after : Table} {scope : ScopeId} {name : Encoding} {id : SymbolId}
      {fresh : Bool} (made : Made table) (inside : table.HasSymbol id)
      (done : table.makeVisible scope name id = .ok (after, fresh)) : Made after
  | addNominated {table after : Table} {scope target : ScopeId} {able : Bool} (made : Made table)
      (done : table.addNominated scope target = .ok (after, able)) : Made after
  | addBase {table after : Table} {scope base : ScopeId} {fresh : Bool} (made : Made table)
      (done : table.addBase scope base = .ok (after, fresh)) : Made after
  | addFragment {table : Table} (made : Made table) (scope : ScopeId) (node : Tree.NodeId) :
    Made (table.addFragment scope node)
  | setNodeScope {table : Table} (made : Made table) (node : Tree.NodeId) (scope : ScopeId) :
    Made (table.setNodeScope node scope)
  | setDefines {table : Table} (made : Made table) (id : SymbolId) (scope : ScopeId) :
    Made (table.modifySymbol id ({ · with defines := some scope }))
  | reparent {table after : Table} {scope outer : ScopeId} (made : Made table)
      (done : table.reparent scope outer = .ok after) : Made after

/-- One operation after the other, every symbol under a name stays in the table. -/
theorem Made.namesSymbols (made : Made table) : table.NamesSymbols := by
  have refl : ∀ symbol : Symbol, (fun _ _ : Symbol => True) symbol symbol := fun _ => trivial
  induction made with
  | initial =>
    intro id found read name member among
    rcases of_scope_initial true read with ⟨rfl, rfl⟩
    exact absurd among List.not_mem_nil
  | searching _ searches names => exact names
  | createScope _ region outer node names =>
    exact .frame (.createScope refl region outer node) names
  | declare _ done names => exact names.declares (declares_of_declare done)
  | addSymbol _ scope symbol names =>
    unfold Table.addSymbol
    dsimp only
    split
    · exact names.enter scope symbol
    · exact .frame (.withSymbol refl symbol) names
  | makeVisible _ inside done names =>
    rcases of_makeVisible done with ⟨found, read, rfl⟩
    exact names.bind _ _ inside
  | addNominated _ done names => exact .frame (.addNominated refl done) names
  | addBase _ done names => exact .frame (.addBase refl done) names
  | addFragment _ scope node names => exact .frame (.modifyScope refl scope fun _ => rfl) names
  | setNodeScope _ node scope names => exact .frame (.setNodeScope refl node scope) names
  | setDefines _ id scope names => exact .frame (.modifySymbol id refl fun _ => trivial) names
  | reparent _ done names => exact .frame (.reparent refl done) names

namespace Assembled

variable {count : Nat}

theorem made (assembled : Assembled count table) : table.Made := by
  induction assembled with
  | initial => exact .initial
  | searching _ searches made => exact made.searching searches
  | createScope _ region outer node made => exact made.createScope region outer node
  | declared _ _ done made | refused _ done made => exact made.declare done
  | @added _ _ _ scope symbol _ _ _ done made =>
    have added := made.addSymbol scope symbol
    rwa [done] at added
  | makeVisible _ inside done made => exact made.makeVisible inside done
  | addNominated _ done made => exact made.addNominated done
  | addBase _ done made => exact made.addBase done
  | addFragment _ scope node made => exact made.addFragment scope node
  | setNodeScope _ node scope made => exact made.setNodeScope node scope
  | setDefines _ id scope made => exact made.setDefines id scope
  | reparent _ done made => exact made.reparent done

theorem namesSymbols (assembled : Assembled count table) : table.NamesSymbols :=
  assembled.made.namesSymbols

/-- One operation after the other, as many declaring nodes come in as there are declarations. -/
theorem declarationCount (assembled : Assembled count table) : table.declarationCount = count := by
  induction assembled with
  | initial => rfl
  | searching _ searches same => exact same
  | createScope _ region outer node same =>
    exact (declarationCount_of_symbols (symbols_createScope ..)).trans same
  | declared _ single done same => exact (declarationCount_of_declare single done).trans (by rw [same])
  | refused _ done same =>
    cases declares_of_declare done
    exact same
  | added _ single done same =>
    rw [of_addSymbol done, declarationCount_enter _ single, same]
  | makeVisible _ _ done same => exact (declarationCount_of_symbols (symbols_makeVisible done)).trans same
  | addNominated _ done same =>
    exact (declarationCount_of_symbols (symbols_addNominated done)).trans same
  | addBase _ done same => exact (declarationCount_of_symbols (symbols_addBase done)).trans same
  | addFragment _ scope node same => exact same
  | setNodeScope _ node scope same => exact same
  | setDefines _ id scope same => exact (declarationCount_setDefines id scope).trans same
  | reparent _ done same => exact (declarationCount_of_symbols (symbols_reparent done)).trans same

/-- A pass over a tree is a number of operations. -/
theorem stable : Binding.Stable (fun _ => True) fun table => ∃ count, Assembled count table where
  createScope := fun region outer node ⟨_, assembled⟩ =>
    ⟨_, assembled.createScope region (some outer) (some node)⟩
  declare := by
    rintro table name kind type scope node span after answer ⟨count, assembled⟩ - - done
    cases answer with
    | ok id => exact ⟨_, assembled.declared rfl done⟩
    | error refusal => exact ⟨_, assembled.refused done⟩
  makeVisible := fun ⟨_, assembled⟩ inside _ _ done => ⟨_, assembled.makeVisible inside done⟩
  addNominated := fun ⟨_, assembled⟩ done => ⟨_, assembled.addNominated done⟩
  addBase := fun ⟨_, assembled⟩ done => ⟨_, assembled.addBase done⟩
  addFragment := fun scope node ⟨_, assembled⟩ => ⟨_, assembled.addFragment scope node⟩
  setNodeScope := fun node scope ⟨_, assembled⟩ => ⟨_, assembled.setNodeScope node scope⟩
  setDefines := fun id scope ⟨_, assembled⟩ => ⟨_, assembled.setDefines id scope⟩
  reparent := fun ⟨_, assembled⟩ done => ⟨_, assembled.reparent done⟩

end Assembled

end Table

/-- The tables that any passes over any trees leave behind are put together by operations. -/
theorem assembled_afterPasses (passes : List Pass) {bound : Bound}
    (before : ∃ count, Table.Assembled count bound.table) :
    ∃ count, Table.Assembled count (bound.afterPasses passes).table := by
  induction passes generalizing bound with
  | nil => exact before
  | cons pass rest ih =>
    exact ih (Table.Assembled.stable.bind (fun _ _ => trivial) pass.file pass.options before)

namespace Table

variable {table after : Table} {scope : ScopeId} {symbol : Symbol}

/-- In every table that operations put together there are as many declaring nodes as there were
symbols declared without being refused, or added.  In each of its scopes a declaration of whatever
symbol has an answer.  If it is refused, the table stays as it is.  If not, either the table has
one more symbol, which is bound last under its name, or one symbol gets one more declaring node,
without losing anything, and nothing else changes. -/
theorem declare_conserves {count : Nat} (assembled : Assembled count table) :
    table.declarationCount = count ∧
      ∀ scope, table.HasScope scope → ∀ symbol, ∃ after answer,
        table.declare scope symbol = .ok (after, answer) ∧
        table.DeclaresAtomically scope symbol after answer := by
  refine ⟨assembled.declarationCount, fun scope inside symbol => ?_⟩
  rcases assembled.namesSymbols.exists_declare inside symbol with ⟨after, answer, done⟩
  exact ⟨after, answer, done, declaresAtomically_of_declare done⟩

/-- The declarations of `extern int x; int x = 1;`. -/
def announcedX : Symbol :=
  .ofDeclaration ⟨[0x81, 0x78]⟩ (.object false) ⟨[0x69]⟩ global 1 (some ⟨11, 1⟩)

@[inherit_doc announcedX]
def definedX : Symbol :=
  .ofDeclaration ⟨[0x81, 0x78]⟩ (.object true) ⟨[0x69]⟩ global 2 (some ⟨18, 1⟩)

/-- A variable that is announced is declared again by its definition. -/
theorem declare_conserves_variable :
    Assembled 1 (initial.enter global announcedX) ∧
      (initial.enter global announcedX).HasScope global ∧
      (initial.enter global announcedX).declarationCount = 1 ∧
      ∃ after, (initial.enter global announcedX).declare global definedX = .ok (after, .ok ⟨0⟩) ∧
        (initial.enter global announcedX).DeclaresAtomically global definedX after (.ok ⟨0⟩) := by
  have assembled : Assembled 1 (initial.enter global announcedX) :=
    .declared .initial rfl (rfl : initial.declare global announcedX = _)
  have inside : (initial.enter global announcedX).HasScope global := Nat.lt_succ_self 0
  rcases declare_conserves assembled with ⟨counted, declares⟩
  rcases declares global inside definedX with ⟨after, answer, done, atomic⟩
  have again : (initial.enter global announcedX).declare global definedX =
      .ok ((initial.enter global announcedX).modifySymbol ⟨0⟩ (merged · definedX), .ok ⟨0⟩) := rfl
  cases again.symm.trans done
  exact ⟨assembled, inside, counted, _, again, atomic⟩

end Table

end CppNames
