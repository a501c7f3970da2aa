import CppNames.Proofs.Binding.Native
import CppNames.Proofs.Lookup.Composition
import CppNames.Proofs.Lookup.Qualifier

namespace CppNames

/-!
# Definitions of static data members

A static data member is declared in the body of its class and defined behind it, under a qualified
name.  The definition is compared with the member as with any variable: it is merged with a
variable that is not defined yet, and refused where there is a definition or a constant.

What the member is in the body decides this.  Without an initializer it is a variable that is not
defined, and one definition is accepted.  With one it counts as defined, or as a constant where the
value is known, and no definition is accepted any more.  A definition is refused as a second one
only if neither side is a constant.
-/

namespace Binding

open Table

/-! ## What comes later -/

/-- What binding makes of a table, as far as stable properties tell. -/
def Leads (before after : Table) : Prop :=
  ∀ holds : Table → Prop, Stable (fun _ => True) holds → holds before → holds after

theorem Leads.refl (table : Table) : Leads table table := fun _ _ before => before

/-- What is visited is bound. -/
theorem Leads.visitElements {size : Nat} {node : Node} {surroundings : Surroundings}
    {state after : State} {last : Unit}
    (ran : Binding.visitElements (bindWithin size) node surroundings state = .ok last after) :
    Leads state.table after.table := fun _ stable before =>
  (maintains_visitElements (stable.visits size) fun _ _ => trivial).of_ok before ran

/-! ## What a variable is declared as -/

/-- A constant where the value is known, and else a variable. -/
def variableOf (value : Option Int64) (defined : Bool) : SymbolKind :=
  value.elim (.object defined) fun known => .constant (some known)

/-- How a definition relates to what a variable was declared as: it is merged with a variable that
is not defined, and else refused. -/
theorem relation_variableOf {id : SymbolId} {old new : Symbol} {known value : Option Int64}
    {initialized : Bool} (was : old.kind = variableOf known initialized)
    (is : new.kind = variableOf value true) (same : old.type = new.type) :
    relation id old new =
      if known = none ∧ initialized = false then .merge
      else if known = none ∧ value = none then .redefinition else .conflict := by
  have alike : (old.type == new.type) = true := beq_iff_eq.mpr same
  unfold relation
  rw [was, is, alike]
  cases known <;> cases value <;> cases initialized <;>
    simp [variableOf, definedOnce, SymbolKind.isTagged, SymbolKind.isValue, SymbolKind.isFunction]

/-- A type of its name does not stand in the way of a variable. -/
theorem relation_of_isTagged {id : SymbolId} {old new : Symbol} {value : Option Int64}
    {defined : Bool} (tagged : old.kind.isTagged = true) (is : new.kind = variableOf value defined) :
    relation id old new = .coexist :=
  relation_eq_coexist_iff.mpr (.taggedFirst tagged (by rw [is]; cases value <;> rfl))

theorem isTagged_of_family {left right : SymbolKind} (same : left.family = right.family) :
    left.isTagged = right.isTagged := by
  cases left <;> cases right <;> first | rfl | cases same

/-- A variable that is defined, or has a value, stays what it is. -/
theorem mergedKind_variableOf {id : SymbolId} {known : Option Int64} {defined : Bool}
    {new : SymbolKind} (merges : Merges id (variableOf known defined) new) :
    mergedKind (variableOf known defined) new = variableOf known defined ∨
      (known = none ∧ defined = false) := by
  cases known with
  | some value => exact .inl rfl
  | none =>
    cases defined with
    | false => exact .inr ⟨rfl, rfl⟩
    | true =>
      cases merges with
      | objects once => exact .inl rfl

/-- A symbol that was declared as a variable.  If it was not defined, nothing is said of its kind
once it was declared again. -/
structure WasVariable (type : Encoding) (known : Option Int64) (defined : Bool) (symbol : Symbol) :
    Prop where
  type : symbol.type = type
  declared : symbol.declarations ≠ []
  kind : symbol.kind = variableOf known defined ∨
    (known = none ∧ defined = false) ∧ 1 < symbol.declarations.length

theorem WasVariable.merged {id : SymbolId} {type : Encoding} {known : Option Int64} {defined : Bool}
    {symbol new : Symbol} (was : WasVariable type known defined symbol)
    (merges : relation id symbol new = .merge) :
    WasVariable type known defined (merged symbol new) := by
  have longer : (Table.merged symbol new).declarations.length = symbol.declarations.length + 1 :=
    List.length_append
  have more : 1 < (Table.merged symbol new).declarations.length :=
    longer ▸ Nat.succ_lt_succ (List.length_pos_iff.mpr was.declared)
  refine ⟨was.type, List.ne_nil_of_length_pos (Nat.lt_of_succ_lt more), ?_⟩
  rcases was.kind with is | ⟨unknown, -⟩
  · rcases mergedKind_variableOf (is ▸ merges_of_relation merges) with same | unknown
    · exact .inl ((congrArg (mergedKind · new.kind) is).trans same)
    · exact .inr ⟨unknown, more⟩
  · exact .inr ⟨unknown, more⟩

/-- A variable that is the first symbol with its name, apart from types. -/
structure HoldsVariable (owner : ScopeId) (name type : Encoding) (id : SymbolId)
    (known : Option Int64) (defined : Bool) (table : Table) : Prop where
  bound : ∃ scope front back, table.scope owner = .ok scope ∧
    scope.named name = front ++ id :: back ∧
    ∀ other ∈ front, ∃ symbol, table.symbol other = .ok symbol ∧ symbol.kind.isTagged = true
  was : ∃ symbol, table.symbol id = .ok symbol ∧ WasVariable type known defined symbol

namespace HoldsVariable

variable {owner : ScopeId} {name type : Encoding} {id : SymbolId} {known : Option Int64}
  {defined : Bool} {table after : Table}

/-- The variable stays the first one with its name. -/
theorem grows (holds : HoldsVariable owner name type id known defined table)
    (grows : table.Grows after)
    (was : ∃ symbol, after.symbol id = .ok symbol ∧ WasVariable type known defined symbol) :
    HoldsVariable owner name type id known defined after := by
  rcases holds.bound with ⟨scope, front, back, read, named, tagged⟩
  rcases grows.scope owner scope read with ⟨later, readLater, -, names⟩
  rcases names name with ⟨more, longer⟩
  refine ⟨⟨later, front, back ++ more, readLater, ?_, fun other member => ?_⟩, was⟩
  · rw [← longer, named, List.append_assoc, List.cons_append]
  · rcases tagged other member with ⟨symbol, readSymbol, isType⟩
    rcases grows.symbol other symbol readSymbol with ⟨grown, readGrown, into⟩
    exact ⟨grown, readGrown, (isTagged_of_family into.resembles.1).symm.trans isType⟩

/-- Binding keeps a variable where it is, and one that is defined or has a value as it is. -/
theorem stable {permits : Node → Prop} :
    Stable permits (HoldsVariable owner name type id known defined) := by
  refine .ofGrows (fun grown same holds => ?_) (fun target scope holds => ?_) ?_
  · rcases holds.was with ⟨symbol, read, was⟩
    refine holds.grows grown ⟨symbol, ?_, was⟩
    unfold Table.symbol at read ⊢
    rwa [same]
  · refine ⟨?_, ?_⟩
    · rcases holds.bound with ⟨found, front, back, read, named, tagged⟩
      refine ⟨found, front, back, read, named, fun other member => ?_⟩
      rcases tagged other member with ⟨symbol, readSymbol, isType⟩
      rw [symbol_modifySymbol, readSymbol]
      split
      · exact ⟨_, rfl, isType⟩
      · exact ⟨symbol, rfl, isType⟩
    · rcases holds.was with ⟨symbol, read, was⟩
      rw [symbol_modifySymbol, read]
      split
      · exact ⟨_, rfl, was.type, was.declared, was.kind⟩
      · exact ⟨symbol, rfl, was⟩
  · intro table name kind type scope node span after answer holds done
    have declares := declares_of_declare done
    refine holds.grows declares.grows ?_
    rcases holds.was with ⟨symbol, read, was⟩
    cases declares with
    | refused => exact ⟨symbol, read, was⟩
    | fresh found readScope judged =>
      refine ⟨symbol, ?_, was⟩
      rw [symbol_modifyScope, symbol_withSymbol, if_neg (ne_nextSymbol (hasSymbol_of_symbol read))]
      exact read
    | again found target readScope judged =>
      rcases of_judge_again judged with ⟨-, old, readOld, merges⟩
      rw [symbol_modifySymbol, read]
      split
      · next same =>
        subst same
        cases read.symm.trans readOld
        exact ⟨_, rfl, was.merged merges⟩
      · exact ⟨symbol, rfl, was⟩

end HoldsVariable

/-- What a declaration of a variable says of it: its value where that is known, and else whether it
is defined, by an initializer or because it is not only declared. -/
theorem of_variableKind {type : Encoding} {initializer : Node} {storage : Storage}
    {surroundings : Surroundings} {state after : State} {kind : SymbolKind} {only : Bool}
    (declares : ∀ scope, state.table.scope surroundings.current = .ok scope →
      (storage.isExtern || (scope.region.isClass && storage.isStatic)) = only)
    (ran : variableKind type initializer storage surroundings state = .ok kind after) :
    after = state ∧ ∃ value, constantValue type initializer surroundings state = .ok value state ∧
      (initializer.isNil = true → value = none) ∧
      kind = variableOf value (!initializer.isNil || !only) := by
  rcases Binds.of_bind ran with ⟨value, first, evaluates, rest⟩
  have same : first = state ∧ (initializer.isNil = true → value = none) := by
    unfold constantValue at evaluates
    split at evaluates
    · next counts =>
      rcases of_answer evaluates with ⟨-, same⟩
      refine ⟨same, fun absent => ?_⟩
      rw [absent] at counts
      cases counts
    · cases evaluates
      exact ⟨rfl, fun _ => rfl⟩
  rcases same with ⟨rfl, absent⟩
  cases value with
  | some known =>
    cases rest
    exact ⟨rfl, some known, evaluates, absent, rfl⟩
  | none =>
    rcases Binds.of_bind rest with ⟨here, second, isHere, behind⟩
    cases isHere
    rcases Binds.of_bind behind with ⟨scope, third, asked, ended⟩
    rcases of_ask asked with ⟨read, rfl⟩
    cases ended
    exact ⟨rfl, none, evaluates, absent, by rw [← declares scope read]; rfl⟩

end Binding

namespace Table

/-! ## Finding what is declared again -/

variable {table : Table} {owner : ScopeId} {scope : Scope} {name : Encoding} {found : SymbolSet}

theorem mem_symbols_of_symbol {id : SymbolId} {symbol : Symbol}
    (read : table.symbol id = .ok symbol) : symbol ∈ table.symbols := by
  unfold Table.symbol at read
  split at read
  · next known at_ =>
    cases read
    exact Array.mem_of_getElem? at_
  · cases read

theorem of_declaredBy?_some {node : Tree.NodeId} {ids : List SymbolId} {id : SymbolId}
    (declared : table.declaredBy? node ids = .ok (some id)) :
    ∃ symbol, table.symbol id = .ok symbol ∧ node ∈ symbol.declarations := by
  induction ids with
  | nil => cases declared
  | cons first rest ih =>
    rcases Outcome.of_bind declared with ⟨symbol, read, same⟩
    split at same
    · next declares =>
      cases same
      exact ⟨symbol, read, List.contains_iff_mem.mp declares⟩
    · exact ih same

/-- What a scope has itself is found there, unless a lookup has a particular purpose. -/
theorem isEmpty_of_find (read : table.scope owner = .ok scope) (has : scope.named name ≠ [])
    (asked : table.find owner name { declaration := true } = .ok found) : found.isEmpty = false := by
  rcases Outcome.of_bind asked with ⟨again, readAgain, asked⟩
  cases read.symm.trans readAgain
  rcases Outcome.of_bind asked with ⟨ids, sees, same⟩
  cases same
  rcases Outcome.of_bind sees with ⟨others, _, kept⟩
  refine Bool.and_eq_false_imp.mpr fun empty => ?_
  have none : ids = [] := List.isEmpty_iff.mp empty
  cases kept
  split at none
  · exact absurd none has
  · next some => exact absurd (List.isEmpty_iff.mpr none) some

theorem SymbolSet.isEmpty_union {left right : SymbolSet} (some : right.isEmpty = false) :
    (left.union right).isEmpty = false := by
  refine Bool.and_eq_false_imp.mpr fun empty => ?_
  have none : (left.union right).ids = [] := List.isEmpty_iff.mp empty
  have noId : right.ids = [] := List.eq_nil_iff_forall_not_mem.mpr fun id member =>
    List.ne_nil_of_mem ((SymbolSet.mem_union left right id).mpr (.inr member)) none
  have depends : right.dependent = true := by
    unfold SymbolSet.isEmpty at some
    rw [noId] at some
    simpa using some
  simp [SymbolSet.union, depends]

/-- What a scope has itself is found behind `::`. -/
theorem isEmpty_of_lookupQualified (read : table.scope owner = .ok scope)
    (has : scope.named name ≠ [])
    (asked : table.lookupQualified owner name { declaration := true } = .ok found) :
    found.isEmpty = false := by
  have known : ∀ own, table.find owner name { declaration := true } = .ok own →
      own.isEmpty = false := fun own => isEmpty_of_find read has
  unfold lookupQualified at asked
  rw [read, Outcome.ok_bind] at asked
  dsimp only at asked
  have stays : ∀ {behind : Outcome SymbolSet} {further : Bool},
      (table.find owner name { declaration := true } >>= fun own =>
        if !own.isEmpty || further then pure own else behind) = .ok found →
        found.isEmpty = false := by
    intro behind further asked
    rcases Outcome.of_bind asked with ⟨own, finds, same⟩
    rw [known own finds] at same
    cases same
    exact known found finds
  split at asked
  · exact stays asked
  · exact stays asked
  · rcases Outcome.of_bind asked with ⟨search, searched, same⟩
    cases same
    rw [List.foldlM_cons] at searched
    rcases Outcome.of_bind searched with ⟨only, visits, same⟩
    cases same
    unfold searchWithin at visits
    rw [if_neg List.not_mem_nil] at visits
    rcases Outcome.of_bind visits with ⟨own, finds, rest⟩
    have some := known own finds
    rw [some, if_neg Bool.false_ne_true] at rest
    cases rest
    exact SymbolSet.isEmpty_union some
  · exact known found asked

end Table

namespace Binding

open Table

/-! ## Declaring a variable -/

section Declaring

variable {visit : Visit} {surroundings : Surroundings} {state after : State} {name type : Encoding}
  {kind : SymbolKind} {node : Tree.NodeId} {span : Option Span}

/-- A variable is declared before its declarator is visited. -/
theorem of_bindDeclarator_variable {storage : Storage} {header : Option ScopeId} {declarator : Node}
    (names : declarator.name? = some name)
    (noFunction : (declarator.type?.getD .empty).isFunction = false)
    (ran : bindDeclarator visit storage header declarator surroundings state = .ok () after) :
    ∃ span kind first declared second,
      variableKind (declarator.type?.getD .empty) declarator.initializer storage surroundings state =
        .ok kind first ∧
      declareNamed name kind (declarator.type?.getD .empty) declarator.id span surroundings first =
        .ok declared second ∧
      visitElements visit declarator surroundings second = .ok () after := by
  unfold bindDeclarator at ran
  rw [names] at ran
  dsimp only at ran
  rcases Binds.of_bind ran with ⟨span, _, placed, rest⟩
  rcases of_answer placed with ⟨-, rfl⟩
  rw [noFunction, if_neg Bool.false_ne_true] at rest
  rcases Binds.of_bind rest with ⟨kind, first, is, rest⟩
  rcases Binds.of_bind rest with ⟨_, second, declares, visits⟩
  rcases of_discard declares with ⟨declared, declares⟩
  exact ⟨span, kind, first, declared, second, is, declares, visits⟩

/-- What is no function is declared again as it is. -/
theorem memberKind_of_plain {table : Table} {found : SymbolSet} (plain : kind.signature? = none) :
    memberKind table found kind = .ok kind := by
  cases kind <;> first | rfl | cases plain

open Encoding (simpleName qualified limit IsComponent)

/-- The qualifier of a name tells where it belongs. -/
theorem of_declarationTarget {front : List Encoding} {text : String} {owner : ScopeId}
    {target : Option (ScopeId × Encoding)}
    (components : ∀ part ∈ front, IsComponent part) (named : front ≠ [])
    (told : (front ++ [simpleName text]).length ≤ limit)
    (leads : state.table.lookupScope (qualified front) surroundings.current =
      .ok (.ok (some owner)))
    (ran : declarationTarget (qualified (front ++ [simpleName text])) span surroundings state =
      .ok target after) : target = some (owner, simpleName text) ∧ after = state := by
  have all : ∀ part ∈ front ++ [simpleName text], IsComponent part :=
    List.forall_mem_append.mpr ⟨components, List.forall_mem_singleton.mpr (.simpleName text)⟩
  rcases Binds.of_bind ran with ⟨parts, _, reads, searches⟩
  rcases of_answer reads with ⟨splits, rfl⟩
  cases (components_qualified (two_le_length_concat named) told all).symm.trans splits
  rw [List.getLast?_concat] at searches
  dsimp only at searches
  rw [List.dropLast_concat] at searches
  rcases Binds.of_bind searches with ⟨_, _, isHere, looks⟩
  cases isHere
  rcases Binds.of_bind looks with ⟨looked, _, asked, found⟩
  rcases of_ask asked with ⟨answered, rfl⟩
  cases leads.symm.trans answered
  cases found
  exact ⟨rfl, rfl⟩

/-- What is there and no function is declared again as it is.  More is reported only where a new
symbol comes of it. -/
theorem of_declareMember {text : String} {owner : ScopeId} {scope : Scope} {id : Option SymbolId}
    (read : state.table.scope owner = .ok scope) (has : scope.named (simpleName text) ≠ [])
    (plain : kind.signature? = none)
    (ran : declareMember name owner (simpleName text) kind type node span surroundings state =
      .ok id after) :
    ∃ middle, declare owner (.ofDeclaration (simpleName text) kind type owner node span) surroundings
        state = .ok id middle ∧
      (middle.table.symbols.size ≤ state.table.symbols.size → after = middle) := by
  rcases Binds.of_bind ran with ⟨key, _, keys, searches⟩
  rcases of_answer keys with ⟨isKey, rfl⟩
  cases (Encoding.lookupKey_simpleName text).1.symm.trans isKey
  rcases Binds.of_bind searches with ⟨found, _, asks, shows⟩
  rcases of_ask asks with ⟨finds, rfl⟩
  rcases Binds.of_bind shows with ⟨shown, _, texts, chooses⟩
  rcases of_answer texts with ⟨-, rfl⟩
  rw [isEmpty_of_lookupQualified read has finds, if_neg Bool.false_ne_true] at chooses
  rcases Binds.of_bind chooses with ⟨again, _, asks, declares⟩
  rcases of_ask asks with ⟨kinds, rfl⟩
  cases (memberKind_of_plain plain).symm.trans kinds
  rcases Binds.of_bind declares with ⟨before, _, gets, declares⟩
  cases gets
  rcases Binds.of_bind declares with ⟨known, middle, done, reports⟩
  rcases Binds.of_bind reports with ⟨behind, _, gets, ends⟩
  cases gets
  refine ⟨middle, ?_⟩
  dsimp only at ends
  split at ends
  · next more =>
    rcases Binds.of_bind ends with ⟨_, _, _, ended⟩
    cases ended
    exact ⟨done, fun few => absurd more (Nat.not_lt_of_le few)⟩
  · cases ends
    exact ⟨done, fun _ => rfl⟩

/-- A qualified name of something that is there is declared in the scope that its qualifier
denotes. -/
theorem of_declareNamed_qualified {front : List Encoding} {text : String} {owner : ScopeId}
    {scope : Scope} {declared : Option SymbolId × ScopeId}
    (components : ∀ part ∈ front, IsComponent part) (named : front ≠ [])
    (told : (front ++ [simpleName text]).length ≤ limit)
    (leads : state.table.lookupScope (qualified front) surroundings.current =
      .ok (.ok (some owner)))
    (read : state.table.scope owner = .ok scope) (has : scope.named (simpleName text) ≠ [])
    (plain : kind.signature? = none)
    (ran : declareNamed (qualified (front ++ [simpleName text])) kind type node span surroundings
      state = .ok declared after) :
    ∃ middle, declare owner (.ofDeclaration (simpleName text) kind type owner node span) surroundings
        state = .ok declared.1 middle ∧
      (middle.table.symbols.size ≤ state.table.symbols.size → after = middle) := by
  rcases Binds.of_bind ran with ⟨here, _, isHere, tries⟩
  cases isHere
  rw [Encoding.isQualified_qualified (two_le_length_concat named), if_pos rfl] at tries
  rcases Binds.of_bind tries with ⟨target, first, aims, behind⟩
  rcases of_declarationTarget components named told leads aims with ⟨rfl, rfl⟩
  change (declareMember _ owner (simpleName text) kind type node span >>= fun id =>
    pure (id, owner)) surroundings first = _ at behind
  rcases Binds.of_bind behind with ⟨id, last, member, ended⟩
  cases ended
  exact of_declareMember read has plain member

end Declaring

/-! ## Definitions -/

section Defining

variable {type : Encoding} {owner : ScopeId} {id : SymbolId}

/-- The nodes that declare a symbol. -/
def DeclaredBy (table : Table) (id : SymbolId) (labels : List Tree.NodeId) : Prop :=
  ∃ symbol, table.symbol id = .ok symbol ∧ symbol.declarations = labels

/-- The nodes that declare a symbol, the last of which defines it. -/
def DefinedBy (table : Table) (id : SymbolId) (labels : List Tree.NodeId) (last : Tree.NodeId) :
    Prop :=
  ∃ symbol, table.symbol id = .ok symbol ∧ symbol.declarations = labels ++ [last] ∧
    symbol.isDefined = true ∧ symbol.node = last

/-- A node that has not declared anything. -/
def Undeclared (table : Table) (node : Tree.NodeId) : Prop :=
  ∀ symbol ∈ table.symbols, node ∉ symbol.declarations

/-- The message about a definition of a variable that has a definition or is a constant. -/
def definitionMessage (known value : Option Int64) : Message :=
  if known = none ∧ value = none then .redefinition else .redeclaration

/-- Where nothing was declared by a node yet, the symbols of its name decide. -/
theorem verdict_of_undeclared {table after : Table} {scope : ScopeId} {found : Scope} {new : Symbol}
    {answered : Except Refusal SymbolId} (read : table.scope scope = .ok found)
    (undeclared : Undeclared table new.node)
    (done : table.declare scope new = .ok (after, answered)) :
    table.verdict scope new = table.judge new (found.named new.name) := by
  refine verdict_of_unseen new read ?_
  rcases Outcome.of_bind done with ⟨verdict, given, -⟩
  rcases Outcome.of_bind given with ⟨again, readAgain, given⟩
  cases read.symm.trans readAgain
  rcases Outcome.of_bind given with ⟨earlier, declared, -⟩
  cases earlier with
  | none => exact declared
  | some previous =>
    rcases of_declaredBy?_some declared with ⟨symbol, there, declares⟩
    exact absurd declares (undeclared symbol (mem_symbols_of_symbol there))

/-- Types of its name do not stand in the way of a variable. -/
theorem judge_of_tagged {table : Table} {new : Symbol} {value : Option Int64} {defined : Bool}
    {ids : List SymbolId}
    (tagged : ∀ other ∈ ids, ∃ symbol, table.symbol other = .ok symbol ∧
      symbol.kind.isTagged = true) (is : new.kind = variableOf value defined) :
    table.judge new ids = .ok .fresh :=
  judge_eq_fresh_iff.mpr fun other member =>
    (tagged other member).imp fun _ ⟨read, isType⟩ => ⟨read, relation_of_isTagged isType is⟩

/-- A definition that is merged with a variable which is not defined defines it. -/
theorem merged_definition {old new : Symbol} {value : Option Int64}
    (was : old.kind = .object false) (is : new.kind = variableOf value true) :
    (merged old new).kind = variableOf value true ∧ (merged old new).isDefined = true ∧
      (merged old new).node = new.node := by
  have kind : (merged old new).kind = variableOf value true := by
    change mergedKind old.kind new.kind = variableOf value true
    rw [was, is]
    cases value <;> rfl
  refine ⟨kind, ?_, if_pos ?_⟩
  · change (merged old new).kind.isDefined = true
    rw [kind]
    cases value <;> rfl
  · unfold Symbol.isDefined
    rw [was, is]
    cases value <;> rfl

namespace HoldsVariable

variable {name : Encoding} {known value : Option Int64} {initialized : Bool} {label : Tree.NodeId}
  {table after : Table} {node : Tree.NodeId} {span : Option Span}

/-- A variable that is defined, has a value or was declared once is what it was declared as. -/
theorem kind (holds : HoldsVariable owner name type id known initialized table)
    (first : known = none → initialized = false → DeclaredBy table id [label]) :
    ∃ old, table.symbol id = .ok old ∧ old.type = type ∧ old.kind = variableOf known initialized := by
  rcases holds.was with ⟨old, read, was⟩
  refine ⟨old, read, was.type, ?_⟩
  rcases was.kind with is | ⟨⟨unknown, undefined⟩, more⟩
  · exact is
  · rcases first unknown undefined with ⟨same, readAgain, once⟩
    cases read.symm.trans readAgain
    rw [once] at more
    exact absurd more (Nat.lt_irrefl 1)

/-- What is declared under the name of a variable is judged by the variable. -/
theorem verdict (holds : HoldsVariable owner name type id known initialized table)
    {old new : Symbol} {answered : Except Refusal SymbolId} (read : table.symbol id = .ok old)
    (is : new.kind = variableOf value true) (named : new.name = name)
    (undeclared : Undeclared table new.node)
    (done : table.declare owner new = .ok (after, answered))
    (meets : relation id old new ≠ .coexist) :
    table.verdict owner new = .ok ((relation id old new).verdict id) := by
  rcases holds.bound with ⟨scope, types, others, readScope, there, tagged⟩
  rw [verdict_of_undeclared readScope undeclared done, named, there,
    judge_append (judge_of_tagged tagged is), if_pos rfl, judge_cons read, if_neg meets]

/-- A variable that was declared once and is not defined becomes defined. -/
theorem merged (holds : HoldsVariable owner name type id known initialized table)
    {old new : Symbol} (read : table.symbol id = .ok old) (sameType : old.type = type)
    (undefined : old.kind = .object false) (once : old.declarations = [label])
    (is : new.kind = variableOf value true) :
    DefinedBy (table.modifySymbol id (Table.merged · new)) id [label] new.node ∧
      HoldsVariable owner name type id value true (table.modifySymbol id (Table.merged · new)) := by
  rcases merged_definition undefined is with ⟨kind, defined, shown⟩
  have becomes : (table.modifySymbol id (Table.merged · new)).symbol id =
      .ok (Table.merged old new) := by
    rw [symbol_modifySymbol, if_pos rfl, read]
    rfl
  have labels : (Table.merged old new).declarations = [label] ++ [new.node] :=
    congrArg (· ++ [new.node]) once
  refine ⟨⟨_, becomes, labels, defined, shown⟩, ?_, _, becomes, sameType,
    labels ▸ List.cons_ne_nil _ _, .inl kind⟩
  rcases holds.bound with ⟨scope, types, others, readScope, there, tagged⟩
  refine ⟨scope, types, others, readScope, there, fun other member => ?_⟩
  rcases tagged other member with ⟨symbol, readSymbol, isType⟩
  have differs : id ≠ other := by
    rintro rfl
    cases read.symm.trans readSymbol
    rw [undefined] at isType
    cases isType
  exact ⟨symbol, by rw [symbol_modifySymbol, if_neg differs, readSymbol], isType⟩

/-- A definition of a variable is merged with a variable that is not defined, and else refused. -/
theorem declare {answered : Except Refusal SymbolId}
    (holds : HoldsVariable owner name type id known initialized table)
    (first : known = none → initialized = false → DeclaredBy table id [label])
    (undeclared : Undeclared table node)
    (done : table.declare owner (.ofDeclaration name (variableOf value true) type owner node span) =
      .ok (after, answered)) :
    if known = none ∧ initialized = false then
      answered = .ok id ∧ after.symbols.size = table.symbols.size ∧
        DefinedBy after id [label] node ∧ HoldsVariable owner name type id value true after
    else after = table ∧ ∃ refusal, answered = .error refusal ∧
      refusalMessage refusal = definitionMessage known value := by
  rcases holds.kind first with ⟨old, read, sameType, was⟩
  generalize made : Symbol.ofDeclaration name (variableOf value true) type owner node span = new
    at done
  have is : new.kind = variableOf value true := made ▸ rfl
  have relates : relation id old new =
      if known = none ∧ initialized = false then .merge
      else if known = none ∧ value = none then .redefinition else .conflict :=
    relation_variableOf was is (sameType.trans (made ▸ rfl))
  have judged := holds.verdict read is (made ▸ rfl) (made ▸ undeclared) done (by
    rw [relates]
    split
    · decide
    · split <;> decide)
  unfold Table.declare at done
  rw [judged, Outcome.ok_bind, relates] at done
  split
  · next opened =>
    rw [if_pos opened] at done
    cases done
    rcases first opened.1 opened.2 with ⟨same, readAgain, once⟩
    cases read.symm.trans readAgain
    have undefined : old.kind = .object false := by rw [was, opened.1, opened.2]; rfl
    have becomes := holds.merged read sameType undefined once is
    rw [← made] at becomes
    exact ⟨rfl, Array.size_modify, made ▸ becomes⟩
  · next closed =>
    rw [if_neg closed] at done
    unfold definitionMessage
    split
    · next both =>
      rw [if_pos both] at done
      cases done
      exact ⟨rfl, _, rfl, rfl⟩
    · next one =>
      rw [if_neg one] at done
      cases done
      exact ⟨rfl, _, rfl, rfl⟩

/-- A variable whose name only types have is a new symbol. -/
theorem enter {scope : Scope} (read : table.scope owner = .ok scope)
    (tagged : ∀ other ∈ scope.named name, ∃ symbol, table.symbol other = .ok symbol ∧
      symbol.kind.isTagged = true) :
    HoldsVariable owner name type table.nextSymbol known initialized (table.enter owner
      (.ofDeclaration name (variableOf known initialized) type owner node span)) := by
  have older : ∀ other ∈ scope.named name, other ≠ table.nextSymbol := fun other member =>
    (tagged other member).elim fun _ there => ne_nextSymbol (hasSymbol_of_symbol there.1)
  refine ⟨⟨_, scope.named name, [], scope_enter read _, ?_, fun other member => ?_⟩, _,
    symbol_enter .., rfl, List.cons_ne_nil _ _, .inl rfl⟩
  · rw [Scope.named_bind]
    exact (if_pos rfl).trans (if_neg fun member => older _ member rfl)
  · rcases tagged other member with ⟨symbol, readSymbol, isType⟩
    refine ⟨symbol, ?_, isType⟩
    unfold Table.enter
    rw [symbol_modifyScope, symbol_withSymbol, if_neg (older other member), readSymbol]

end HoldsVariable

end Defining

/-! ## Declarators of members -/

/-- A declarator that was bound. -/
structure DeclaratorRun where
  size : Nat
  storage : Storage
  header : Option ScopeId
  node : Node
  surroundings : Surroundings
  before : State
  after : State
  ran : bindDeclarator (bindWithin size) storage header node surroundings before = .ok () after

namespace DeclaratorRun

open Encoding (simpleName qualified limit IsComponent)

variable {run : DeclaratorRun} {text : String} {type : Encoding} {owner : ScopeId}

/-- The value that the initializer gives to a variable. -/
def Gives (run : DeclaratorRun) (value : Option Int64) : Prop :=
  constantValue (run.node.type?.getD .empty) run.node.initializer run.surroundings run.before =
    .ok value run.before

/-- What was declared and reported before the nodes inside the declarator were visited. -/
def Leaves (run : DeclaratorRun) (table : Table) (reports : Log) : Prop :=
  visitElements (bindWithin run.size) run.node run.surroundings
    { run.before with table := table, log := run.before.log ++ reports } = .ok () run.after

/-- A declarator in the body of a class that declares a static data member, whose name no symbol of
the class has but types. -/
structure DeclaresStatic (run : DeclaratorRun) (text : String) (type : Encoding) : Prop where
  name : run.node.name? = some (simpleName text)
  typed : run.node.type?.getD .empty = type
  noFunction : type.isFunction = false
  isStatic : run.storage.isStatic = true
  inClass : ∃ scope, run.before.table.scope run.surroundings.current = .ok scope ∧
    scope.region.isClass = true ∧ ∀ other ∈ scope.named (simpleName text),
      ∃ symbol, run.before.table.symbol other = .ok symbol ∧ symbol.kind.isTagged = true
  undeclared : Undeclared run.before.table run.node.id

/-- A declarator without storage class whose name is that of a member, behind a qualifier that
denotes the class. -/
structure DefinesMember (run : DeclaratorRun) (text : String) (type : Encoding) (owner : ScopeId) :
    Prop where
  name : ∃ front : List Encoding, front ≠ [] ∧ (front ++ [simpleName text]).length ≤ limit ∧
    (∀ part ∈ front, IsComponent part) ∧
    run.node.name? = some (qualified (front ++ [simpleName text])) ∧
    run.before.table.lookupScope (qualified front) run.surroundings.current = .ok (.ok (some owner))
  typed : run.node.type?.getD .empty = type
  plain : run.storage.isExtern = false ∧ run.storage.isStatic = false
  undeclared : Undeclared run.before.table run.node.id

/-- What the nodes inside a declarator make of a table comes behind what was declared. -/
theorem Leaves.leads {table : Table} {reports : Log} (leaves : run.Leaves table reports) :
    Leads table run.after.table := Leads.visitElements leaves

/-- A static data member becomes a variable of its class, which is defined if it has an
initializer. -/
theorem DeclaresStatic.holds (declares : run.DeclaresStatic text type) :
    ∃ own, run.Gives own ∧ (run.node.initializer.isNil = true → own = none) ∧
      HoldsVariable run.surroundings.current (simpleName text) type run.before.table.nextSymbol own
        (!run.node.initializer.isNil) run.after.table := by
  rcases declares.inClass with ⟨scope, read, isClass, tagged⟩
  rcases of_bindDeclarator_variable declares.name (by rw [declares.typed, declares.noFunction])
    run.ran with ⟨span, kind, first, declared, second, kinds, named, visits⟩
  have only : ∀ found, run.before.table.scope run.surroundings.current = .ok found →
      (run.storage.isExtern || (found.region.isClass && run.storage.isStatic)) = true := by
    intro found again
    cases read.symm.trans again
    rw [isClass, declares.isStatic, Bool.and_true, Bool.or_true]
  rcases of_variableKind only kinds with ⟨rfl, own, gives, absent, rfl⟩
  rw [Bool.not_true, Bool.or_false, declares.typed] at named
  rcases of_declare (of_declareNamed_simple (IsComponent.simpleName text).isQualified_eq named) with
    ⟨table, answered, done, reports, rfl, -⟩
  have fresh := (verdict_of_undeclared read declares.undeclared done).trans
    (judge_of_tagged tagged rfl)
  cases (declare_of_fresh read fresh).symm.trans done
  exact ⟨own, gives, absent, Leads.visitElements visits _ HoldsVariable.stable (.enter read tagged)⟩

/-- A definition of a variable is merged with a variable that is not defined, and else refused. -/
theorem DefinesMember.defined {id : SymbolId} {known : Option Int64} {initialized : Bool}
    {label : Tree.NodeId} (defines : run.DefinesMember text type owner)
    (noFunction : type.isFunction = false)
    (holds : HoldsVariable owner (simpleName text) type id known initialized run.before.table)
    (first : known = none → initialized = false → DeclaredBy run.before.table id [label]) :
    ∃ value table reports, run.Gives value ∧ run.Leaves table reports ∧
      if known = none ∧ initialized = false then
        reports = [] ∧ DefinedBy table id [label] run.node.id ∧
          HoldsVariable owner (simpleName text) type id value true table
      else table = run.before.table ∧
        reports.map (·.code) = [(definitionMessage known value).code] := by
  rcases defines.name with ⟨front, some, told, components, named, leads⟩
  rcases of_bindDeclarator_variable named (by rw [defines.typed, noFunction]) run.ran with
    ⟨span, kind, _, declared, second, kinds, declares, visits⟩
  have defining : ∀ found, run.before.table.scope run.surroundings.current = .ok found →
      (run.storage.isExtern || (found.region.isClass && run.storage.isStatic)) = false := by
    intro found _
    rw [defines.plain.1, defines.plain.2, Bool.and_false, Bool.or_false]
  rcases of_variableKind defining kinds with ⟨rfl, value, gives, -, rfl⟩
  rw [Bool.not_false, Bool.or_true, defines.typed] at declares
  rcases holds.bound with ⟨scope, types, others, read, there, -⟩
  have has : scope.named (simpleName text) ≠ [] :=
    there ▸ List.append_ne_nil_of_right_ne_nil _ (List.cons_ne_nil _ _)
  have plain : (variableOf value true).signature? = none := by cases value <;> rfl
  rcases of_declareNamed_qualified components some told leads read has plain declares with
    ⟨middle, declares, quiet⟩
  rcases of_declare declares with ⟨table, answered, done, reports, rfl, outcome⟩
  have settled := holds.declare first defines.undeclared done
  split at settled
  · next opened =>
    rcases settled with ⟨rfl, size, defined, held⟩
    rcases outcome with ⟨_, _, -, rfl⟩ | ⟨_, refused, -⟩
    · rw [quiet (Nat.le_of_eq size)] at visits
      exact ⟨value, table, [], gives, visits, by rw [if_pos opened]; exact ⟨rfl, defined, held⟩⟩
    · cases refused
  · next closed =>
    rcases settled with ⟨rfl, refusal, rfl, message⟩
    rcases outcome with ⟨_, accepted, -⟩ | ⟨_, same, -, codes⟩
    · cases accepted
    · cases same
      rw [quiet (Nat.le_refl _)] at visits
      exact ⟨value, _, reports, gives, visits,
        by rw [if_neg closed]; exact ⟨rfl, message ▸ codes⟩⟩

end DeclaratorRun

/-- A static data member that has no initializer in its class is defined once behind it: the first
definition is merged with it without a report, and every later one is refused, as a definition again
unless one of both gives a value.  A member that has an initializer in its class is not defined
behind it at all: there the first definition is refused already. -/
theorem staticMember_defined {inside definition : DeclaratorRun} {text : String} {type : Encoding}
    (declares : inside.DeclaresStatic text type)
    (later : Leads inside.after.table definition.before.table)
    (first : DeclaredBy definition.before.table inside.before.table.nextSymbol [inside.node.id])
    (defines : definition.DefinesMember text type inside.surroundings.current) :
    ∃ own value table reports, inside.Gives own ∧ definition.Gives value ∧
      definition.Leaves table reports ∧
      if inside.node.initializer.isNil then
        reports = [] ∧
        DefinedBy table inside.before.table.nextSymbol [inside.node.id] definition.node.id ∧
        ∀ second : DeclaratorRun, Leads definition.after.table second.before.table →
          second.DefinesMember text type inside.surroundings.current →
          ∃ more refused, second.Gives more ∧ second.Leaves second.before.table refused ∧
            refused.map (·.code) = [(definitionMessage value more).code]
      else table = definition.before.table ∧
        reports.map (·.code) = [(definitionMessage own value).code] := by
  rcases declares.holds with ⟨own, gives, absent, holds⟩
  have held := later _ HoldsVariable.stable holds
  rcases defines.defined declares.noFunction held fun _ _ => first with
    ⟨value, table, reports, givesAgain, leaves, settled⟩
  refine ⟨own, value, table, reports, gives, givesAgain, leaves, ?_⟩
  cases without : inside.node.initializer.isNil with
  | true =>
    rw [without, absent without, if_pos ⟨rfl, rfl⟩] at settled
    rcases settled with ⟨quiet, defined, member⟩
    refine (if_pos rfl).mpr ⟨quiet, defined, fun second behind again => ?_⟩
    have still := behind _ HoldsVariable.stable (leaves.leads _ HoldsVariable.stable member)
    have stays : value = none → true = false → DeclaredBy second.before.table
        inside.before.table.nextSymbol [definition.node.id] :=
      fun _ undefined => Bool.noConfusion undefined
    rcases again.defined declares.noFunction still stays with
      ⟨more, same, refused, gives, leaves, settled⟩
    rw [if_neg fun both => Bool.noConfusion both.2] at settled
    rcases settled with ⟨rfl, codes⟩
    exact ⟨more, refused, gives, leaves, codes⟩
  | false =>
    rw [without, if_neg (fun both => Bool.noConfusion both.2)] at settled
    exact settled

open Encoding (simpleName qualified)

/-- The declarator `x = 1` of a constant in a class. -/
def valuedDeclarator : Node :=
  .cell 5 .declarator (some (simpleName "x")) (some ⟨utf8Bytes "Ci"⟩) .nil
    (.cell 6 .cons none none (.leaf 7 ⟨.equals, "=", 0⟩)
      (.cell 8 .cons none none (.leaf 9 ⟨.integerLiteral, "1", 2⟩) .nil))

/-- The declarator `S::x` of the constant behind the class. -/
def memberDeclarator : Node :=
  .cell 10 .declarator (some (qualified [simpleName "S", simpleName "x"])) (some ⟨utf8Bytes "Ci"⟩)
    .nil .nil

/-- A constant with a value in its class cannot be defined behind it. -/
theorem staticMember_defined_valued :
    ∃ inside definition : DeclaratorRun, inside.DeclaresStatic "x" ⟨utf8Bytes "Ci"⟩ ∧
      Leads inside.after.table definition.before.table ∧
      DeclaredBy definition.before.table inside.before.table.nextSymbol [inside.node.id] ∧
      definition.DefinesMember "x" ⟨utf8Bytes "Ci"⟩ inside.surroundings.current ∧
      ∃ reports, definition.Leaves definition.before.table reports ∧
        reports.map (·.code) = [2001] := by
  have runs : (endState? (bindDeclarator (bindWithin 5) ⟨false, true, false⟩ none valuedDeclarator
      ⟨"", {}, ⟨1⟩⟩ ⟨openClass, [], none, []⟩)).any fun middle =>
        (endState? (bindDeclarator (bindWithin 5) ⟨false, false, false⟩ none memberDeclarator
          ⟨"", {}, global⟩ middle)).isSome &&
        (middle.table.symbol ⟨1⟩).toOption.map (·.declarations) == some [5] &&
        (middle.table.lookupScope (qualified [simpleName "S"]) global).toOption.map (·.toOption) ==
          some (some (some ⟨1⟩)) &&
        middle.table.symbols.all (!·.declarations.contains 10) := by
    decide +kernel
  have inClass : (openClass.scope ⟨1⟩).toOption.any fun scope =>
      scope.region.isClass && scope.named (simpleName "x") == [] := by
    decide +kernel
  have unseen : Undeclared openClass 5 := by
    unfold Undeclared
    decide +kernel
  have known : (Constant.evaluate ⟨openClass, ⟨1⟩⟩ false valuedDeclarator.initializer).toOption =
      some (some 1) := by
    decide +kernel
  rcases (Option.any_eq_true _ _).mp runs with ⟨middle, ended, facts⟩
  rcases (Option.any_eq_true _ _).mp inClass with ⟨scope, opened, unnamed⟩
  simp only [Bool.and_eq_true, beq_iff_eq, Option.isSome_iff_exists, Array.all_eq_true',
    Bool.not_eq_true', List.contains_eq_mem, decide_eq_false_iff_not, Option.map_eq_some_iff]
    at facts unnamed
  rcases facts with ⟨⟨⟨⟨last, finished⟩, symbol, read, labels⟩, target, leads, denotes⟩, undeclared⟩
  let inside : DeclaratorRun := ⟨_, _, _, _, _, _, _, of_endState? ended⟩
  let definition : DeclaratorRun := ⟨_, _, _, _, _, _, _, of_endState? finished⟩
  have declares : inside.DeclaresStatic "x" ⟨utf8Bytes "Ci"⟩ := {
    name := rfl
    typed := rfl
    noFunction := by decide +kernel
    isStatic := rfl
    inClass := ⟨scope, Outcome.of_toOption opened, unnamed.1,
      fun other member => absurd (unnamed.2 ▸ member) List.not_mem_nil⟩
    undeclared := unseen }
  have first : DeclaredBy middle.table ⟨1⟩ [5] := ⟨symbol, Outcome.of_toOption read, labels⟩
  have defines : definition.DefinesMember "x" ⟨utf8Bytes "Ci"⟩ ⟨1⟩ := {
    name := by
      refine ⟨[simpleName "S"], List.cons_ne_nil _ _, by decide, ?_, rfl, ?_⟩
      · exact List.forall_mem_singleton.mpr (.simpleName "S")
      · rw [Outcome.of_toOption denotes] at leads
        exact Outcome.of_toOption leads
    typed := rfl
    plain := ⟨rfl, rfl⟩
    undeclared := undeclared }
  rcases staticMember_defined declares (.refl _) first defines with
    ⟨own, value, table, reports, gives, _, leaves, rfl, codes⟩
  refine ⟨inside, definition, declares, .refl _, first, defines, reports, leaves, ?_⟩
  have one : constantValue ⟨utf8Bytes "Ci"⟩ valuedDeclarator.initializer ⟨"", {}, ⟨1⟩⟩
      ⟨openClass, [], none, []⟩ = .ok (some 1) ⟨openClass, [], none, []⟩ := by
    unfold constantValue
    rw [if_pos (by decide +kernel)]
    change answer (Constant.evaluate ⟨openClass, ⟨1⟩⟩ false valuedDeclarator.initializer) ⟨"", {}, ⟨1⟩⟩
      ⟨openClass, [], none, []⟩ = _
    rw [Outcome.of_toOption known]
    rfl
  cases one.symm.trans gives
  exact codes

end Binding

end CppNames
