import CppNames.Proofs.Table.Change
import Mathlib.Data.List.Pairwise

namespace CppNames

/-!
# Symbols that share a name

A declaration is judged against the symbols of its name one after the other, and the first one
that it declares again ends the judgement.  The symbols behind that one are never asked.  They
need not be: what a declaration declares again is of its own family and, where types matter, of
its own type, so whatever stands beside the symbol may stand beside the declaration too.

Two symbols stand side by side in one of two ways.  Either one of them is a class, an
enumeration or a class template and the other one an object or a function, or both are functions
and differ.  A merged declaration changes neither the family nor the type of a symbol, so it
keeps this, and a new symbol was compared with all symbols of its name.  Hence it holds in every
table that declarations and new scopes put together, in whatever order they come.
-/

namespace SymbolKind

/-- Whether the symbol is a variable, a constant or an enumerator. -/
def isObject : SymbolKind → Bool
  | .object _ | .constant _ | .enumerator _ => true
  | _ => false

/-- Whether the symbol is a type definition, a type parameter or a namespace, which share their
names with nothing. -/
def isAlone : SymbolKind → Bool
  | .typedefName _ | .typeParameter | .namespaceName => true
  | _ => false

/-- The family of a symbol: what it is, apart from what is known about it. -/
inductive Family where
  | object
  | enumerator
  | classType
  | enumType
  | typedefName
  | typeParameter
  | function
  | functionTemplate
  | classTemplate
  | namespaceName
  deriving DecidableEq, Repr

/-- The family of a kind.  A constant is an object whose value is known. -/
def family : SymbolKind → Family
  | .object _ | .constant _ => .object
  | .enumerator _ => .enumerator
  | .classType _ => .classType
  | .enumType => .enumType
  | .typedefName _ => .typedefName
  | .typeParameter => .typeParameter
  | .function .. => .function
  | .functionTemplate .. => .functionTemplate
  | .classTemplate _ => .classTemplate
  | .namespaceName => .namespaceName

end SymbolKind

namespace Symbol

/-- The symbols of one name, as the rules for sharing it have them. -/
structure ShareName (symbols : List Symbol) : Prop where
  tagged : symbols.countP (·.kind.isTagged) ≤ 1
  objects : symbols.countP (·.kind.isObject) ≤ 1
  functions : (∃ object ∈ symbols, object.kind.isObject = true) →
    ∀ symbol ∈ symbols, symbol.kind.isFunction = false
  alone : ∀ symbol ∈ symbols, symbol.kind.isAlone = true → symbols = [symbol]
  overloads : (symbols.filter (·.kind.family = .function)).Pairwise (·.type ≠ ·.type)
  templates : (symbols.filter (·.kind.family = .functionTemplate)).Pairwise (·.type ≠ ·.type)

/-! ## Two symbols -/

/-- How two symbols stand side by side. -/
inductive StandsBeside (left right : Symbol) : Prop where
  | taggedFirst (tagged : left.kind.isTagged = true)
      (other : (right.kind.isValue || right.kind.isFunction) = true)
  | taggedSecond (tagged : right.kind.isTagged = true)
      (other : (left.kind.isValue || left.kind.isFunction) = true)
  | functions (first : left.kind.isFunction = true) (second : right.kind.isFunction = true)
      (differ : left.kind.family = right.kind.family → left.type ≠ right.type)

/-- Two symbols of one family and one type. -/
def Resembles (left right : Symbol) : Prop :=
  left.kind.family = right.kind.family ∧ left.type = right.type

variable {left right other : Symbol}

theorem StandsBeside.symm (both : left.StandsBeside right) : right.StandsBeside left := by
  cases both with
  | taggedFirst tagged other => exact .taggedSecond tagged other
  | taggedSecond tagged other => exact .taggedFirst tagged other
  | functions first second differ =>
    exact .functions second first fun same => (differ same.symm).symm

instance : Std.Symm StandsBeside := ⟨fun _ _ => StandsBeside.symm⟩

/-- No symbol stands beside itself. -/
theorem StandsBeside.ne (both : left.StandsBeside right) : left ≠ right := by
  rintro rfl
  cases both with
  | taggedFirst tagged other | taggedSecond tagged other =>
    revert tagged other
    cases left.kind <;> simp [SymbolKind.isTagged, SymbolKind.isValue, SymbolKind.isFunction]
  | functions first second differ => exact differ rfl rfl

/-- Only the family and the type of a symbol matter. -/
theorem StandsBeside.of_resembles (both : left.StandsBeside right)
    (same : left.Resembles other) : other.StandsBeside right := by
  rcases left with ⟨_, leftKind, _⟩
  rcases other with ⟨_, otherKind, _⟩
  rcases same with ⟨family, rfl⟩
  have classes : leftKind.isTagged = otherKind.isTagged ∧
      leftKind.isValue = otherKind.isValue ∧ leftKind.isFunction = otherKind.isFunction := by
    cases leftKind <;> cases otherKind <;> cases family <;> exact ⟨rfl, rfl, rfl⟩
  cases both with
  | taggedFirst tagged other => exact .taggedFirst (classes.1 ▸ tagged) other
  | taggedSecond tagged other => exact .taggedSecond tagged (classes.2.1 ▸ classes.2.2 ▸ other)
  | functions first second differ =>
    exact .functions (classes.2.2 ▸ first) second fun same => differ (Eq.trans family same)

theorem StandsBeside.notBoth {left right : Symbol} (both : left.StandsBeside right) :
    ¬ (left.kind.isTagged = true ∧ right.kind.isTagged = true) ∧
      ¬ (left.kind.isObject = true ∧ right.kind.isObject = true) ∧
      ¬ (left.kind.isObject = true ∧ right.kind.isFunction = true) ∧
      left.kind.isAlone = false ∧ right.kind.isAlone = false := by
  rcases left with ⟨_, leftKind, _⟩
  rcases right with ⟨_, rightKind, _⟩
  rcases both with ⟨tagged, other⟩ | ⟨tagged, other⟩ | ⟨first, second, _⟩
  · cases leftKind <;> cases tagged <;> cases rightKind <;> cases other <;>
      simp [SymbolKind.isTagged, SymbolKind.isObject, SymbolKind.isAlone]
  · cases rightKind <;> cases tagged <;> cases leftKind <;> cases other <;>
      simp [SymbolKind.isTagged, SymbolKind.isObject, SymbolKind.isFunction, SymbolKind.isAlone]
  · cases leftKind <;> cases first <;> cases rightKind <;> cases second <;>
      simp [SymbolKind.isTagged, SymbolKind.isObject, SymbolKind.isAlone]

theorem StandsBeside.type_ne (both : left.StandsBeside right)
    (same : left.kind.family = right.kind.family) : left.type ≠ right.type := by
  rcases left with ⟨_, leftKind, _⟩
  rcases right with ⟨_, rightKind, _⟩
  rcases both with ⟨tagged, other⟩ | ⟨tagged, other⟩ | ⟨_, _, differ⟩
  · cases leftKind <;> cases tagged <;> cases rightKind <;> cases other <;> cases same
  · cases rightKind <;> cases tagged <;> cases leftKind <;> cases other <;> cases same
  · exact differ same

/-! ## All symbols of a name -/

theorem countP_le_one {α : Type} {test : α → Bool} {items : List α}
    (apart : items.Pairwise fun first second => ¬ (test first = true ∧ test second = true)) :
    items.countP test ≤ 1 := by
  induction apart with
  | nil => simp
  | @cons first rest others _ ih =>
    by_cases holds : test first = true
    · have none : rest.countP test = 0 :=
        List.countP_eq_zero.mpr fun item member passes => others item member ⟨holds, passes⟩
      simp [holds, none]
    · simpa [holds] using ih

/-- Symbols that stand side by side obey the rules for sharing a name. -/
theorem shareName_of_standsBeside {symbols : List Symbol}
    (both : symbols.Pairwise StandsBeside) : ShareName symbols where
  tagged := countP_le_one (both.imp fun beside => beside.notBoth.1)
  objects := countP_le_one (both.imp fun beside => beside.notBoth.2.1)
  functions := by
    rintro ⟨object, member, isObject⟩ symbol among
    rcases eq_or_ne object symbol with rfl | differ
    · revert isObject
      cases object.kind <;> simp [SymbolKind.isObject, SymbolKind.isFunction]
    · have beside := both.forall member among differ
      exact Bool.eq_false_iff.mpr fun isFunction => beside.notBoth.2.2.1 ⟨isObject, isFunction⟩
  alone := by
    intro symbol member isAlone
    cases both with
    | nil => cases member
    | @cons first rest others _ =>
      have notAlone : ∀ later ∈ rest, first.kind.isAlone = false ∧ later.kind.isAlone = false :=
        fun later among => (others later among).notBoth.2.2.2
      rcases List.mem_cons.mp member with rfl | behind
      · cases rest with
        | nil => rfl
        | cons second rest =>
          have first := (notAlone second (List.mem_cons_self ..)).1
          rw [isAlone] at first
          cases first
      · have later := (notAlone symbol behind).2
        rw [isAlone] at later
        cases later
  overloads := by
    refine List.pairwise_filter.mpr (both.imp fun beside first second => ?_)
    exact beside.type_ne ((of_decide_eq_true first).trans (of_decide_eq_true second).symm)
  templates := by
    refine List.pairwise_filter.mpr (both.imp fun beside first second => ?_)
    exact beside.type_ne ((of_decide_eq_true first).trans (of_decide_eq_true second).symm)

end Symbol

namespace Table

/-! ## One declaration -/

/-- A merged declaration changes neither the family nor the type of a symbol. -/
theorem resembles_merged (old new : Symbol) : old.Resembles (merged old new) := by
  refine ⟨?_, rfl⟩
  unfold merged
  cases old.kind <;> cases new.kind <;> rfl

theorem definedOnce_ne_coexist (old new : Bool) : ¬ definedOnce old new = .coexist := by
  cases old <;> cases new <;> decide

/-- The judgement lets nothing else stand side by side. -/
theorem standsBeside_of_relation {id : SymbolId} {old new : Symbol}
    (judged : relation id old new = .coexist) : old.StandsBeside new := by
  have apart : ∀ {first second : Bool}, (if first = true then Relation.coexist
      else if second = true then .coexist else .conflict) = .coexist →
      first = true ∨ second = true := by
    intro first second
    cases first <;> cases second <;> simp
  unfold relation at judged
  dsimp only at judged
  split at judged
  case h_16 =>
    rcases apart judged with first | second
    · exact .taggedFirst (Bool.and_eq_true_iff.mp first).1 (Bool.and_eq_true_iff.mp first).2
    · exact .taggedSecond (Bool.and_eq_true_iff.mp second).1 (Bool.and_eq_true_iff.mp second).2
  case h_2 oldIs newIs | h_3 oldIs newIs =>
    refine .functions (by rw [oldIs]; rfl) (by rw [newIs]; rfl) fun _ same => ?_
    rw [if_pos (beq_iff_eq.mpr same)] at judged
    exact definedOnce_ne_coexist _ _ judged
  case h_4 oldIs newIs | h_5 oldIs newIs =>
    refine .functions (by rw [oldIs]; rfl) (by rw [newIs]; rfl) fun same => ?_
    rw [oldIs, newIs] at same
    cases same
  case h_1 | h_8 => cases judged
  case h_6 | h_7 => exact absurd judged (definedOnce_ne_coexist _ _)
  -- the pairs that are left are those of equal or named types, which never coexist either
  all_goals
    rename_i oldIs newIs
    simp only [oldIs, newIs, SymbolKind.isTagged, SymbolKind.isValue, SymbolKind.isFunction,
      Bool.and_false, Bool.false_and, Bool.or_false, Bool.false_eq_true, if_false] at judged
    split at judged <;> simp_all [definedOnce_ne_coexist]

variable {new : Symbol}

/-- A declaration stands beside a symbol exactly if the judgement lets it. -/
theorem relation_eq_coexist_iff {id : SymbolId} {old : Symbol} :
    relation id old new = .coexist ↔ old.StandsBeside new := by
  refine ⟨standsBeside_of_relation, fun beside => ?_⟩
  rcases old with ⟨_, oldKind, _⟩
  rcases new with ⟨_, newKind, _⟩
  rcases beside with ⟨tagged, other⟩ | ⟨tagged, other⟩ | ⟨first, second, differ⟩
  · cases oldKind <;> cases tagged <;> cases newKind <;> cases other <;> rfl
  · cases newKind <;> cases tagged <;> cases oldKind <;> cases other <;> rfl
  · cases oldKind <;> cases first <;> cases newKind <;> cases second <;>
      simp_all [relation, SymbolKind.family]

/-- What declares or defines a symbol again, and is no type definition, is of its family, and of
its type if it is a function. -/
theorem alike_of_relation {id : SymbolId} {old : Symbol}
    (again : relation id old new = .merge ∨ relation id old new = .redefinition)
    (noTypedef : ∀ aliased, new.kind ≠ .typedefName aliased) :
    old.kind.family = new.kind.family ∧ (old.kind.isFunction = true → old.type = new.type) := by
  have never : ∀ {first second : Bool}, ¬ ((if first = true then Relation.coexist
      else if second = true then .coexist else .conflict) = .merge ∨
      (if first = true then Relation.coexist
      else if second = true then .coexist else .conflict) = .redefinition) := by
    intro first second
    cases first <;> cases second <;> simp
  rcases old with ⟨_, oldKind, oldType, _⟩
  rcases new with ⟨_, newKind, newType, _⟩
  unfold relation at again
  dsimp only at again noTypedef ⊢
  split at again
  case h_2 | h_3 =>
    refine ⟨rfl, fun _ => ?_⟩
    by_cases same : (oldType == newType) = true
    · exact beq_iff_eq.mp same
    · rw [if_neg same] at again
      rcases again with again | again <;> cases again
  case h_4 | h_5 => rcases again with again | again <;> cases again
  case h_9 | h_10 | h_11 | h_12 => exact absurd rfl (noTypedef _)
  case h_16 => exact absurd again never
  all_goals exact ⟨rfl, fun isFunction => nomatch isFunction⟩

/-- What stands beside a symbol stands beside what declares or defines the symbol again, unless
that is a type definition. -/
theorem standsBeside_of_again {id : SymbolId} {old other : Symbol}
    (again : relation id old new = .merge ∨ relation id old new = .redefinition)
    (noTypedef : ∀ aliased, new.kind ≠ .typedefName aliased) (beside : other.StandsBeside old) :
    other.StandsBeside new := by
  rcases alike_of_relation again noTypedef with ⟨family, type⟩
  rcases old with ⟨_, oldKind, _⟩
  rcases new with ⟨_, newKind, _⟩
  have classes : oldKind.isTagged = newKind.isTagged ∧ oldKind.isValue = newKind.isValue ∧
      oldKind.isFunction = newKind.isFunction := by
    cases oldKind <;> cases newKind <;> cases family <;> exact ⟨rfl, rfl, rfl⟩
  rcases beside with ⟨tagged, value⟩ | ⟨tagged, value⟩ | ⟨first, second, differ⟩
  · exact .taggedFirst tagged (classes.2.1 ▸ classes.2.2 ▸ value)
  · exact .taggedSecond (classes.1 ▸ tagged) value
  · refine .functions first (classes.2.2 ▸ second) fun same => ?_
    exact (type second) ▸ differ (same.trans family.symm)

/-- What stands beside neither of two symbols that stand side by side is in conflict with both,
unless it is a type definition. -/
theorem conflict_of_standsBeside {id other : SymbolId} {first second : Symbol}
    (both : first.StandsBeside second) (noTypedef : ∀ aliased, new.kind ≠ .typedefName aliased)
    (apart : relation id first new ≠ .coexist) (apartToo : relation other second new ≠ .coexist) :
    relation id first new = .conflict := by
  have never : ¬ (relation id first new = .merge ∨ relation id first new = .redefinition) :=
    fun again => apartToo (relation_eq_coexist_iff.mpr
      (standsBeside_of_again again noTypedef both.symm))
  cases decided : relation id first new with
  | coexist => exact absurd decided apart
  | merge => exact absurd (.inl decided) never
  | conflict => rfl
  | redefinition => exact absurd (.inr decided) never

/-- Symbols of a table that stand side by side. -/
structure StandBeside (table : Table) (ids : List SymbolId) : Prop where
  there : ∀ id ∈ ids, table.HasSymbol id
  distinct : ids.Nodup
  beside : ids.Pairwise fun first second => ∀ left right,
    table.symbol first = .ok left → table.symbol second = .ok right → left.StandsBeside right

/-- A table in which the symbols of every name of every scope stand side by side. -/
def SharesNames (table : Table) : Prop :=
  ∀ id scope, table.scope id = .ok scope →
    (scope.bindings.map (·.name)).Nodup ∧ ∀ name, table.StandBeside (scope.named name)

variable {table after : Table}

/-- Symbols go on standing side by side when they change into symbols that resemble them. -/
theorem StandBeside.of_resembles {ids : List SymbolId} (both : table.StandBeside ids)
    (there : ∀ id, table.HasSymbol id → after.HasSymbol id)
    (same : ∀ id symbol, table.HasSymbol id → after.symbol id = .ok symbol →
      ∃ old, table.symbol id = .ok old ∧ old.Resembles symbol) : after.StandBeside ids where
  there := fun id member => there id (both.there id member)
  distinct := both.distinct
  beside := by
    refine both.beside.imp_of_mem fun {first second} firstIn secondIn beside left right => ?_
    intro readLeft readRight
    rcases same first left (both.there first firstIn) readLeft with ⟨oldLeft, before, alikeLeft⟩
    rcases same second right (both.there second secondIn) readRight with
      ⟨oldRight, behind, alikeRight⟩
    have old := beside oldLeft oldRight before behind
    exact ((old.of_resembles alikeLeft).symm.of_resembles alikeRight).symm

/-- A symbol joins those of its name that it stands beside. -/
theorem StandBeside.concat {ids : List SymbolId} {symbol : Symbol} {id : SymbolId}
    (both : table.StandBeside ids) (fresh : id ∉ ids) (read : table.symbol id = .ok symbol)
    (beside : ∀ other ∈ ids, ∀ old, table.symbol other = .ok old → old.StandsBeside symbol) :
    table.StandBeside (ids ++ [id]) where
  there := by
    intro other member
    rcases List.mem_append.mp member with old | new
    · exact both.there other old
    · rw [List.mem_singleton.mp new]
      exact hasSymbol_of_symbol read
  distinct := by
    refine List.nodup_append.mpr ⟨both.distinct, List.nodup_singleton id, ?_⟩
    intro old member new same
    rw [List.mem_singleton.mp same]
    rintro rfl
    exact fresh member
  beside := by
    refine List.pairwise_append.mpr ⟨both.beside, List.pairwise_singleton _ _, ?_⟩
    intro old member new same left right readLeft readRight
    rw [List.mem_singleton.mp same, read] at readRight
    cases readRight
    exact beside old member left readLeft

/-- What stands side by side obeys the rules for sharing a name. -/
theorem StandBeside.shareName {ids : List SymbolId} (both : table.StandBeside ids) :
    ∃ symbols : List Symbol, ids.map table.symbol = symbols.map .ok ∧ Symbol.ShareName symbols := by
  suffices pairs : ∃ symbols : List Symbol, ids.map table.symbol = symbols.map .ok ∧
      symbols.Pairwise Symbol.StandsBeside by
    rcases pairs with ⟨symbols, same, beside⟩
    exact ⟨symbols, same, Symbol.shareName_of_standsBeside beside⟩
  rcases both with ⟨there, -, beside⟩
  induction beside with
  | nil => exact ⟨[], rfl, .nil⟩
  | @cons first rest others _ ih =>
    rcases symbol_of_hasSymbol (there first (List.mem_cons_self ..)) with ⟨symbol, read⟩
    rcases ih fun id member => there id (List.mem_cons_of_mem _ member) with ⟨symbols, same, pairs⟩
    refine ⟨symbol :: symbols, by rw [List.map_cons, List.map_cons, read, same], ?_⟩
    refine .cons (fun other member => ?_) pairs
    have reads : (.ok other : Outcome Symbol) ∈ rest.map table.symbol :=
      same ▸ List.mem_map_of_mem member
    rcases List.mem_map.mp reads with ⟨id, among, readOther⟩
    exact others id among symbol other read readOther

/-! ## Tables put together by declarations and new scopes -/

/-- A step in which a table is put together. -/
inductive Step where
  | declare (scope : ScopeId) (symbol : Symbol)
  | createScope (region : Region) (outer : Option ScopeId) (node : Option Tree.NodeId)

/-- The table after a step.  A declaration in a scope that is not there changes nothing. -/
def Step.apply (table : Table) : Step → Table
  | .declare scope symbol =>
    match table.declare scope symbol with
    | .ok (after, _) => after
    | .error _ => table
  | .createScope region outer node => (table.createScope region outer node).1

/-- The table after some steps. -/
def applySteps (table : Table) (steps : List Step) : Table := steps.foldl Step.apply table

theorem sharesNames_initial : initial.SharesNames := by
  intro id scope read
  rcases of_scope_initial true read with ⟨rfl, rfl⟩
  exact ⟨List.nodup_nil, fun name => ⟨fun _ member => absurd member List.not_mem_nil,
    List.nodup_nil, .nil⟩⟩

/-- Merging a declaration keeps the symbols of every name side by side. -/
theorem SharesNames.merge (shares : table.SharesNames) (id : SymbolId) (symbol : Symbol) :
    (table.modifySymbol id (merged · symbol)).SharesNames := by
  intro other scope read
  refine ⟨(shares other scope read).1, fun name => ?_⟩
  refine ((shares other scope read).2 name).of_resembles (fun _ inside => ?_) ?_
  · exact (hasSymbol_modifySymbol ..).mpr inside
  · intro shared new inside readNew
    rw [symbol_modifySymbol] at readNew
    split at readNew
    · rcases symbol_of_hasSymbol inside with ⟨old, before⟩
      rw [before] at readNew
      cases readNew
      exact ⟨old, before, resembles_merged old symbol⟩
    · exact ⟨new, readNew, rfl, rfl⟩

/-- So does entering a symbol that was compared with those of its name. -/
theorem SharesNames.enter (shares : table.SharesNames) {scope : ScopeId} {symbol : Symbol}
    {found : Scope} (read : table.scope scope = .ok found)
    (judged : table.judge symbol (found.named symbol.name) = .ok .fresh) :
    ((table.withSymbol symbol).modifyScope scope
      (·.bind symbol.name table.nextSymbol)).SharesNames := by
  have grown : ∀ {ids}, table.StandBeside ids →
      ((table.withSymbol symbol).modifyScope scope
        (·.bind symbol.name table.nextSymbol)).StandBeside ids := by
    intro ids both
    refine both.of_resembles (fun _ inside => ?_) fun id new inside readNew => ?_
    · exact Nat.lt_of_lt_of_le inside (by simp [withSymbol, modifyScope])
    · rw [symbol_modifyScope, symbol_withSymbol, if_neg (ne_nextSymbol inside)] at readNew
      exact ⟨new, readNew, rfl, rfl⟩
  intro other changed readChanged
  rw [scope_modifyScope, scope_withSymbol] at readChanged
  split at readChanged
  · next same =>
    subst same
    rw [read] at readChanged
    cases readChanged
    have before := shares scope found read
    refine ⟨Scope.names_bind .. ▸ Region.nodup_including before.1, fun name => ?_⟩
    rw [Scope.named_bind]
    split
    · next same =>
      have both := before.2 symbol.name
      have unused : table.nextSymbol ∉ found.named symbol.name := fun member =>
        ne_nextSymbol (both.there _ member) rfl
      have entered : ((table.withSymbol symbol).modifyScope scope
          (·.bind symbol.name table.nextSymbol)).symbol table.nextSymbol = .ok symbol :=
        (symbol_withSymbol ..).trans (if_pos rfl)
      rw [Region.including, if_neg unused]
      refine (grown both).concat unused entered fun id member old readOld => ?_
      rcases of_judge_fresh judged id member with ⟨same, reads, coexists⟩
      rw [symbol_modifyScope, symbol_withSymbol, if_neg (ne_nextSymbol (both.there id member)),
        reads] at readOld
      cases readOld
      exact standsBeside_of_relation coexists
    · exact grown (before.2 name)
  · exact ⟨(shares other changed readChanged).1,
      fun name => grown ((shares other changed readChanged).2 name)⟩

theorem SharesNames.createScope (shares : table.SharesNames) (region : Region)
    (outer : Option ScopeId) (node : Option Tree.NodeId) :
    (table.createScope region outer node).1.SharesNames := by
  have symbols := table.symbol_createScope region outer node
  have kept : ∀ {ids}, table.StandBeside ids →
      (table.createScope region outer node).1.StandBeside ids := by
    intro ids both
    refine both.of_resembles (fun id inside => ?_) fun id symbol inside read => ?_
    · rcases symbol_of_hasSymbol inside with ⟨symbol, read⟩
      exact hasSymbol_of_symbol ((symbols id).trans read)
    · exact ⟨symbol, (symbols id) ▸ read, rfl, rfl⟩
  intro id scope read
  rcases bindings_createScope read with empty | ⟨old, before, same⟩
  · have nothing : ∀ name, scope.named name = [] := fun name => by simp [Scope.named, empty]
    exact ⟨by simp [empty], fun name => nothing name ▸ ⟨by simp, List.nodup_nil, .nil⟩⟩
  · have named : ∀ name, scope.named name = old.named name := fun name => by
      simp only [Scope.named, same]
    exact ⟨same ▸ (shares id old before).1, fun name => named name ▸ kept ((shares id old before).2 name)⟩

/-- One step keeps the symbols of every name side by side. -/
theorem SharesNames.apply (shares : table.SharesNames) (step : Step) :
    (step.apply table).SharesNames := by
  cases step with
  | declare scope symbol =>
    unfold Step.apply
    dsimp only
    split
    · next after answer done => cases declares_of_declare done with
      | fresh found read judged => exact shares.enter read judged
      | again found id read judged => exact shares.merge id symbol
      | refused found refusal read shared => exact shares
    · exact shares
  | createScope region outer node => exact shares.createScope region outer node

theorem SharesNames.applySteps (shares : table.SharesNames) (steps : List Step) :
    (table.applySteps steps).SharesNames := by
  induction steps generalizing table with
  | nil => exact shares
  | cons first rest ih => exact ih (shares.apply first)

/-- A table in which the names of every scope are distinct, and the symbols of each name are all
there, are listed once each and obey the rules for sharing it. -/
def ObeysNameRules (table : Table) : Prop :=
  ∀ scope ∈ table.scopes, (scope.bindings.map (·.name)).Nodup ∧
    ∀ name, (scope.named name).Nodup ∧ ∃ symbols : List Symbol,
      (scope.named name).map table.symbol = symbols.map .ok ∧ Symbol.ShareName symbols

/-- Every table that is put together by declarations and new scopes, of whatever kinds and in
whatever order, obeys the rules for sharing names. -/
theorem obeysNameRules_of_steps (steps : List Step) :
    (initial.applySteps steps).ObeysNameRules := by
  intro scope member
  rcases Array.mem_iff_getElem?.mp member with ⟨index, found⟩
  rcases sharesNames_initial.applySteps steps ⟨index⟩ scope (scope_eq_ok_iff.mpr found) with
    ⟨names, beside⟩
  exact ⟨names, fun name => ⟨(beside name).distinct, (beside name).shareName⟩⟩

end Table
end CppNames
