import CppNames.Proofs.Table.Redeclaration
import Mathlib.Data.List.Nodup

namespace CppNames

/-!
# Declarations in another order

A declaration is judged by the first symbol of its name that it may not stand beside.  The symbols
of a name that declarations entered stand side by side, and what stands beside a symbol stands
beside whatever declares that symbol again.  So a declaration that declares one of them again, or
defines it again, stands beside all others, and any other declaration is refused by whichever
symbol comes first, for the same reason.  The order of the symbols does not matter then.

Type definitions are the exception.  One that gives a type its own name declares that type again,
but it stands beside no other symbol.  If the type shares its name with an object or a function,
whichever of them was declared first decides.
-/

/-! ## Renamed indices -/

/-- A kind with the index of the type that a type definition names replaced. -/
def SymbolKind.renamed (rename : SymbolId → SymbolId) : SymbolKind → SymbolKind
  | .typedefName aliased => .typedefName (aliased.map rename)
  | other => other

/-- A symbol with the index of the type that a type definition names replaced. -/
def Symbol.renamed (rename : SymbolId → SymbolId) (symbol : Symbol) : Symbol :=
  { symbol with kind := symbol.kind.renamed rename }

namespace Table

open CppNames.Symbol (StandsBeside)

variable {table left right : Table} {rename : SymbolId → SymbolId} {new : Symbol}

/-- A type definition stands beside nothing, and it defines nothing again. -/
theorem relation_typedef {aliased : Option SymbolId} (isTypedef : new.kind = .typedefName aliased)
    (id : SymbolId) (old : Symbol) :
    relation id old new = .merge ∨ relation id old new = .conflict := by
  rcases old with ⟨_, oldKind, oldType, _⟩
  rcases new with ⟨_, newKind, newType, _⟩
  cases isTypedef
  cases aliased <;> cases oldKind <;>
    simp [relation, SymbolKind.isTagged, SymbolKind.isValue, SymbolKind.isFunction, Decidable.em]

/-- A type definition declares a symbol again that stands beside others exactly if the symbol is
the type that it names. -/
theorem relation_typedef_eq_merge_iff {old : Symbol} {aliased : Option SymbolId}
    (isTypedef : new.kind = .typedefName aliased) (id : SymbolId)
    (shares : old.kind.isAlone = false) :
    relation id old new = .merge ↔ old.kind.isTagged = true ∧ aliased = some id := by
  rcases old with ⟨_, oldKind, oldType, _⟩
  rcases new with ⟨_, newKind, newType, _⟩
  cases isTypedef
  cases aliased <;> cases oldKind <;> cases shares <;>
    simp [relation, SymbolKind.isTagged, SymbolKind.isValue, SymbolKind.isFunction]

/-- A verdict with the indices replaced. -/
def Verdict.renamed (rename : SymbolId → SymbolId) : Verdict → Verdict
  | .fresh => .fresh
  | .again id => .again (rename id)
  | .refused refusal => .refused ⟨rename refusal.previous, refusal.redefinition⟩

theorem Verdict.renamed_eq_fresh_iff {verdict : Verdict} :
    verdict.renamed rename = .fresh ↔ verdict = .fresh := by
  cases verdict <;> simp [Verdict.renamed]

theorem renamed_typedef {aliased : Option SymbolId} (isTypedef : new.kind = .typedefName aliased) :
    (new.renamed rename).kind = .typedefName (aliased.map rename) := by
  unfold Symbol.renamed SymbolKind.renamed
  rw [isTypedef]

/-- Renaming changes no relation. -/
theorem relation_renamed (injective : rename.Injective) (id : SymbolId) (old new : Symbol) :
    relation (rename id) old (new.renamed rename) = relation id old new := by
  rcases old with ⟨_, oldKind, _⟩
  rcases new with ⟨_, newKind, _⟩
  cases newKind with
  | typedefName aliased =>
    cases aliased <;> cases oldKind <;>
      simp [relation, Symbol.renamed, SymbolKind.renamed, injective.eq_iff, SymbolKind.isTagged,
        SymbolKind.isValue, SymbolKind.isFunction]
  | object defined => cases oldKind <;> cases defined <;> rfl
  | constant value => cases oldKind with
    | object defined => cases defined <;> rfl
    | _ => rfl
  | _ => cases oldKind <;> rfl

/-! ## Two lists of the same symbols -/

/-- Two lists of symbols in two tables that have the same symbols in some order. -/
structure Renumbers (left right : Table) (rename : SymbolId → SymbolId)
    (early late : List SymbolId) : Prop where
  injective : rename.Injective
  symbols : ∀ id, right.symbol (rename id) = left.symbol id
  there : ∀ id ∈ early, left.HasSymbol id
  members : ∀ other, other ∈ late ↔ ∃ id ∈ early, rename id = other

namespace Renumbers

variable {early late : List SymbolId}

theorem thereToo (renumbers : Renumbers left right rename early late) :
    ∀ other ∈ late, right.HasSymbol other := by
  intro other member
  rcases (renumbers.members other).mp member with ⟨id, among, rfl⟩
  rcases symbol_of_hasSymbol (renumbers.there id among) with ⟨symbol, read⟩
  exact hasSymbol_of_symbol ((renumbers.symbols id).trans read)

/-- What holds of all symbols in one order holds of all in the other one. -/
theorem forall_iff (renumbers : Renumbers left right rename early late)
    (property : SymbolId → Symbol → Prop) (renamed : SymbolId → Symbol → Prop)
    (same : ∀ id symbol, property id symbol ↔ renamed (rename id) symbol) :
    (∀ id ∈ early, ∃ symbol, left.symbol id = .ok symbol ∧ property id symbol) ↔
      ∀ id ∈ late, ∃ symbol, right.symbol id = .ok symbol ∧ renamed id symbol := by
  constructor
  · intro all other member
    rcases (renumbers.members other).mp member with ⟨id, among, rfl⟩
    rcases all id among with ⟨symbol, read, holds⟩
    exact ⟨symbol, (renumbers.symbols id).trans read, (same id symbol).mp holds⟩
  · intro all id member
    rcases all (rename id) ((renumbers.members _).mpr ⟨id, member, rfl⟩) with ⟨symbol, read, holds⟩
    exact ⟨symbol, (renumbers.symbols id).symm.trans read, (same id symbol).mpr holds⟩

theorem declared_iff (renumbers : Renumbers left right rename early late) (node : Tree.NodeId) :
    left.declaredBy? node early = .ok none ↔ right.declaredBy? node late = .ok none := by
  rw [declaredBy?_eq_none_iff, declaredBy?_eq_none_iff]
  exact renumbers.forall_iff _ (fun _ symbol => node ∉ symbol.declarations) fun _ _ => Iff.rfl

theorem fresh_iff (renumbers : Renumbers left right rename early late) (new : Symbol) :
    left.judge new early = .ok .fresh ↔ right.judge (new.renamed rename) late = .ok .fresh := by
  rw [judge_eq_fresh_iff, judge_eq_fresh_iff]
  refine renumbers.forall_iff _ (fun id old => relation id old (new.renamed rename) = .coexist) ?_
  intro id old
  rw [relation_renamed renumbers.injective]

end Renumbers

/-- Two verdicts that say the same, whatever symbol is in the way of a declaration. -/
inductive Verdict.Corresponds (rename : SymbolId → SymbolId) : Verdict → Verdict → Prop where
  | fresh : Corresponds rename .fresh .fresh
  | again (id : SymbolId) : Corresponds rename (.again id) (.again (rename id))
  | refused (previous other : SymbolId) (redefinition : Bool) :
    Corresponds rename (.refused ⟨previous, redefinition⟩) (.refused ⟨other, redefinition⟩)

theorem Verdict.corresponds_renamed (rename : SymbolId → SymbolId) (verdict : Verdict) :
    verdict.Corresponds rename (verdict.renamed rename) := by
  cases verdict with
  | fresh => exact .fresh
  | again id => exact .again id
  | refused refusal => exact .refused _ _ _

/-- Whatever the relation to a symbol says, it says to the renamed symbol. -/
theorem Relation.verdict_renamed (relation : Relation) (id : SymbolId) :
    relation.verdict (rename id) = (relation.verdict id).renamed rename := by
  cases relation <;> rfl

/-- The judgement follows when all indices are replaced. -/
theorem judge_renamed (injective : rename.Injective)
    (symbols : ∀ id, right.symbol (rename id) = left.symbol id) (new : Symbol)
    (ids : List SymbolId) :
    right.judge (new.renamed rename) (ids.map rename) =
      (left.judge new ids).map (·.renamed rename) := by
  induction ids with
  | nil => rfl
  | cons first rest ih =>
    rw [List.map_cons]
    cases read : left.symbol first with
    | error fault =>
      rw [judge, judge, read, symbols, read]
      rfl
    | ok old =>
      rw [judge_cons read, judge_cons ((symbols first).trans read), relation_renamed injective, ih,
        Relation.verdict_renamed]
      split <;> rfl

/-- Symbols that stand side by side decide in every order alike, unless a type definition is
declared. -/
theorem Renumbers.corresponds {early late : List SymbolId}
    (renumbers : Renumbers left right rename early late)
    (beside : ∀ id ∈ early, ∀ other ∈ early, id ≠ other → ∀ first second,
      left.symbol id = .ok first → left.symbol other = .ok second → first.StandsBeside second)
    (noTypedef : ∀ aliased, new.kind ≠ .typedefName aliased) :
    ∃ verdict other, left.judge new early = .ok verdict ∧
      right.judge (new.renamed rename) late = .ok other ∧ verdict.Corresponds rename other := by
  rcases judge_cases new renumbers.there with
    fresh | ⟨id, among, first, read, apart, judged⟩
  · exact ⟨.fresh, .fresh, fresh, (renumbers.fresh_iff new).mp fresh, .fresh⟩
  rcases judge_cases (new.renamed rename) renumbers.thereToo with
    fresh | ⟨other, amongToo, second, readToo, apartToo, judgedToo⟩
  · rcases of_judge_fresh ((renumbers.fresh_iff new).mpr fresh) id among with ⟨old, same, coexists⟩
    cases read.symm.trans same
    exact absurd coexists apart
  rcases (renumbers.members other).mp amongToo with ⟨source, member, rfl⟩
  rw [renumbers.symbols] at readToo
  rw [relation_renamed renumbers.injective] at apartToo judgedToo
  refine ⟨_, _, judged, judgedToo, ?_⟩
  by_cases same : id = source
  · subst same
    cases read.symm.trans readToo
    rw [Relation.verdict_renamed]
    exact Verdict.corresponds_renamed _ _
  have both := beside id among source member same first second read readToo
  rw [conflict_of_standsBeside both noTypedef apart apartToo,
    conflict_of_standsBeside both.symm noTypedef apartToo apart]
  exact .refused _ _ _

/-! ## Declarations one after the other -/

/-- Symbols that are declared in a scope one after the other, each of them a new one. -/
inductive Enters (scope : ScopeId) : Table → List Symbol → Table → Prop where
  | nil (table : Table) : Enters scope table [] table
  | cons {table middle after : Table} {symbol : Symbol} {later : List Symbol}
      (done : table.declare scope symbol = .ok (middle, .ok table.nextSymbol))
      (rest : Enters scope middle later after) : Enters scope table (symbol :: later) after

/-- The indices of symbols that are entered one after the other. -/
def entered (table : Table) (count : Nat) : List SymbolId :=
  (List.range count).map fun offset => ⟨table.symbols.size + offset⟩

theorem mem_entered {count : Nat} {id : SymbolId} :
    id ∈ table.entered count ↔ ¬ table.HasSymbol id ∧ id.index < table.symbols.size + count := by
  unfold entered HasSymbol
  rw [List.mem_map]
  constructor
  · rintro ⟨offset, below, rfl⟩
    have below := List.mem_range.mp below
    exact ⟨by dsimp only; omega, by dsimp only; omega⟩
  · rintro ⟨notBefore, below⟩
    refine ⟨id.index - table.symbols.size, List.mem_range.mpr (by omega), ?_⟩
    rw [Nat.add_sub_cancel' (Nat.le_of_not_lt notBefore)]

/-- A declaration that is no merge is a new symbol. -/
theorem fresh_of_declare {scope : ScopeId} {symbol : Symbol} {after : Table}
    (done : table.declare scope symbol = .ok (after, .ok table.nextSymbol)) :
    ∃ found, table.scope scope = .ok found ∧
      table.judge symbol (found.named symbol.name) = .ok .fresh ∧
      after = (table.withSymbol symbol).modifyScope scope
        (·.bind symbol.name table.nextSymbol) := by
  generalize answers : Except.ok table.nextSymbol = answer at done
  cases declares_of_declare done with
  | fresh found read judged => exact ⟨found, read, judged, rfl⟩
  | again found id read judged =>
    rcases of_judge_again judged with ⟨-, old, there, -⟩
    exact absurd (Except.ok.inj answers).symm (ne_nextSymbol (hasSymbol_of_symbol there))
  | refused => cases answers

namespace Enters

variable {scope : ScopeId} {after : Table} {symbols : List Symbol} {name : Encoding}
  {found : Scope}

theorem symbols_toList (enters : Enters scope table symbols after) :
    after.symbols.toList = table.symbols.toList ++ symbols := by
  induction enters with
  | nil => exact (List.append_nil _).symm
  | cons done rest ih =>
    rcases fresh_of_declare done with ⟨found, read, judged, rfl⟩
    rw [ih]
    simp [modifyScope, withSymbol]

theorem size_symbols (enters : Enters scope table symbols after) :
    after.symbols.size = table.symbols.size + symbols.length := by
  rw [← Array.length_toList, enters.symbols_toList, List.length_append, Array.length_toList]

theorem getElem?_symbols (enters : Enters scope table symbols after) (index : Nat) :
    after.symbols[index]? =
      if index < table.symbols.size then table.symbols[index]?
      else symbols[index - table.symbols.size]? := by
  rw [← Array.getElem?_toList, ← Array.getElem?_toList, enters.symbols_toList,
    List.getElem?_append, Array.length_toList]

theorem hasSymbol (enters : Enters scope table symbols after) {id : SymbolId}
    (inside : table.HasSymbol id) : after.HasSymbol id :=
  Nat.lt_of_lt_of_le inside (enters.size_symbols ▸ Nat.le_add_right _ _)

theorem symbol_eq_ok_iff (enters : Enters scope table symbols after) {id : SymbolId}
    (outside : ¬ table.HasSymbol id) {symbol : Symbol} :
    after.symbol id = .ok symbol ↔ symbols[id.index - table.symbols.size]? = some symbol := by
  rw [Table.symbol_eq_ok_iff, enters.getElem?_symbols, if_neg (show ¬ id.index < _ from outside)]

/-- The symbols are bound under their name, behind those that it has already. -/
theorem named (enters : Enters scope table symbols after)
    (names : ∀ symbol ∈ symbols, symbol.name = name) (read : table.scope scope = .ok found)
    (there : ∀ id ∈ found.named name, table.HasSymbol id) :
    ∃ later, after.scope scope = .ok later ∧
      later.named name = found.named name ++ table.entered symbols.length := by
  induction enters generalizing found with
  | nil => exact ⟨found, read, (List.append_nil _).symm⟩
  | @cons table middle after symbol later done rest ih =>
    rcases List.forall_mem_cons.mp names with ⟨rfl, others⟩
    rcases fresh_of_declare done with ⟨same, again, judged, rfl⟩
    cases read.symm.trans again
    have unused : table.nextSymbol ∉ found.named symbol.name := fun member =>
      ne_nextSymbol (there _ member) rfl
    have bound : (found.bind symbol.name table.nextSymbol).named symbol.name =
        found.named symbol.name ++ [table.nextSymbol] := by
      rw [Scope.named_bind, if_pos rfl, Region.including, if_neg unused]
    have size : (table.withSymbol symbol).symbols.size = table.symbols.size + 1 :=
      Array.size_push symbol
    rcases ih others (scope_enter read symbol) (fun id member => by
      rw [bound] at member
      rcases List.mem_append.mp member with old | new
      · exact Nat.lt_of_lt_of_le (there id old) (size ▸ Nat.le_succ _)
      · rw [List.mem_singleton.mp new]
        exact Nat.lt_of_lt_of_eq (Nat.lt_succ_self _) size.symm) with ⟨last, readLast, namedLast⟩
    refine ⟨last, readLast, ?_⟩
    rw [namedLast, bound, List.append_assoc]
    refine congrArg (found.named symbol.name ++ ·) ?_
    unfold entered
    rw [List.length_cons, List.range_succ_eq_map, List.map_cons, List.map_map]
    refine congrArg (table.nextSymbol :: ·) (List.map_congr_left fun offset _ => ?_)
    change SymbolId.mk ((table.withSymbol symbol).symbols.size + offset) = _
    rw [size, Nat.add_right_comm]
    rfl

/-- What is entered stands beside the symbols that have the name already. -/
theorem standsBeside_of_mem (enters : Enters scope table symbols after)
    (names : ∀ symbol ∈ symbols, symbol.name = name) (read : table.scope scope = .ok found)
    {id : SymbolId} (member : id ∈ found.named name) {old : Symbol}
    (readOld : table.symbol id = .ok old) : ∀ symbol ∈ symbols, old.StandsBeside symbol := by
  induction enters generalizing found with
  | nil => exact fun symbol none => absurd none List.not_mem_nil
  | @cons table middle after symbol later done rest ih =>
    rcases List.forall_mem_cons.mp names with ⟨rfl, others⟩
    rcases fresh_of_declare done with ⟨same, again, judged, rfl⟩
    cases read.symm.trans again
    refine List.forall_mem_cons.mpr ⟨?_, ?_⟩
    · rcases of_judge_fresh judged id member with ⟨same, readSame, coexists⟩
      cases readOld.symm.trans readSame
      exact standsBeside_of_relation coexists
    · refine ih others (scope_enter read symbol) ?_ ?_
      · exact (Scope.prefix_named_bind found _ _ _).subset member
      · rw [symbol_modifyScope, symbol_withSymbol,
          if_neg (ne_nextSymbol (hasSymbol_of_symbol readOld))]
        exact readOld

/-- What is entered stands side by side. -/
theorem pairwise (enters : Enters scope table symbols after)
    (names : ∀ symbol ∈ symbols, symbol.name = name) : symbols.Pairwise StandsBeside := by
  induction enters with
  | nil => exact .nil
  | @cons table middle after symbol later done rest ih =>
    rcases List.forall_mem_cons.mp names with ⟨rfl, others⟩
    rcases fresh_of_declare done with ⟨found, read, judged, rfl⟩
    refine .cons ?_ (ih others)
    refine rest.standsBeside_of_mem others (scope_enter read symbol) ?_
      ((symbol_withSymbol ..).trans (if_pos rfl))
    rw [Scope.named_bind, if_pos rfl]
    exact Region.mem_including.mpr (.inr rfl)

end Enters

/-! ## Declarations in two orders -/

section TwoOrders

variable {scope : ScopeId} {first second : List Symbol}

/-- Where a symbol is in a table that declared some symbols in another order. -/
def counterpart (table : Table) (first second : List Symbol) (id : SymbolId) : SymbolId :=
  if id.index < table.symbols.size then id
  else match first[id.index - table.symbols.size]? with
    | some symbol => ⟨table.symbols.size + second.idxOf symbol⟩
    | none => id

theorem counterpart_of_hasSymbol {id : SymbolId} (inside : table.HasSymbol id) :
    table.counterpart first second id = id := if_pos inside

theorem counterpart_of_some {id : SymbolId} (outside : ¬ table.HasSymbol id) {symbol : Symbol}
    (read : first[id.index - table.symbols.size]? = some symbol) :
    table.counterpart first second id = ⟨table.symbols.size + second.idxOf symbol⟩ := by
  rw [counterpart, if_neg (show ¬ id.index < _ from outside), read]

theorem counterpart_of_none {id : SymbolId}
    (beyond : first[id.index - table.symbols.size]? = none) :
    table.counterpart first second id = id := by
  rw [counterpart, beyond, ite_self]

/-- A symbol is one that was there before, one that was entered, or none at all. -/
theorem counterpart_cases (table : Table) (first : List Symbol) (id : SymbolId) :
    table.HasSymbol id ∨
      (¬ table.HasSymbol id ∧ ∃ symbol ∈ first,
        first[id.index - table.symbols.size]? = some symbol) ∨
      (¬ table.HasSymbol id ∧ first[id.index - table.symbols.size]? = none) := by
  by_cases inside : table.HasSymbol id
  · exact .inl inside
  cases read : first[id.index - table.symbols.size]? with
  | some symbol => exact .inr (.inl ⟨inside, symbol, List.mem_of_getElem? read, rfl⟩)
  | none => exact .inr (.inr ⟨inside, rfl⟩)

theorem counterpart_counterpart (perm : second.Perm first) (distinct : first.Nodup)
    (id : SymbolId) :
    table.counterpart second first (table.counterpart first second id) = id := by
  rcases counterpart_cases table first id with
    inside | ⟨outside, symbol, member, read⟩ | ⟨-, beyond⟩
  · rw [counterpart_of_hasSymbol inside, counterpart_of_hasSymbol inside]
  · have later : ¬ table.HasSymbol ⟨table.symbols.size + second.idxOf symbol⟩ :=
      Nat.not_lt_of_le (Nat.le_add_right _ _)
    have there : second[table.symbols.size + second.idxOf symbol - table.symbols.size]? =
        some symbol := by
      rw [Nat.add_sub_cancel_left]
      exact List.getElem?_idxOf (perm.mem_iff.mpr member)
    rw [counterpart_of_some outside read, counterpart_of_some later there]
    rcases List.getElem?_eq_some_iff.mp read with ⟨below, same⟩
    rw [← same, distinct.idxOf_getElem, Nat.add_sub_cancel' (Nat.le_of_not_lt outside)]
  · have further : second[id.index - table.symbols.size]? = none :=
      List.getElem?_eq_none_iff.mpr (perm.length_eq ▸ List.getElem?_eq_none_iff.mp beyond)
    rw [counterpart_of_none beyond, counterpart_of_none further]

theorem counterpart_injective (table : Table) (perm : second.Perm first) (distinct : first.Nodup) :
    (table.counterpart first second).Injective :=
  Function.LeftInverse.injective (counterpart_counterpart perm distinct)

theorem counterpart_mem_entered (perm : second.Perm first) {id : SymbolId}
    (member : id ∈ table.entered first.length) :
    table.counterpart first second id ∈ table.entered second.length := by
  rcases mem_entered.mp member with ⟨outside, below⟩
  rcases counterpart_cases table first id with inside | ⟨-, symbol, among, read⟩ | ⟨-, beyond⟩
  · exact absurd inside outside
  · rw [counterpart_of_some outside read]
    refine mem_entered.mpr ⟨Nat.not_lt_of_le (Nat.le_add_right _ _), ?_⟩
    exact Nat.add_lt_add_left (List.idxOf_lt_length_of_mem (perm.mem_iff.mpr among)) _
  · have beyond := List.getElem?_eq_none_iff.mp beyond
    have outside : table.symbols.size ≤ id.index := Nat.le_of_not_lt outside
    omega

variable {found : Scope} {name : Encoding}

/-- After the same declarations in two orders, the symbols are the same, in two orders. -/
theorem Enters.symbol_counterpart (enters : Enters scope table first left)
    (others : Enters scope table second right) (perm : second.Perm first) (id : SymbolId) :
    right.symbol (table.counterpart first second id) = left.symbol id := by
  unfold Table.symbol
  rw [enters.getElem?_symbols, others.getElem?_symbols]
  rcases counterpart_cases table first id with
    inside | ⟨outside, symbol, member, read⟩ | ⟨outside, beyond⟩
  · rw [counterpart_of_hasSymbol inside, if_pos (show id.index < _ from inside),
      if_pos (show id.index < _ from inside)]
  · rw [counterpart_of_some outside read, if_neg (show ¬ id.index < _ from outside), read,
      if_neg (Nat.not_lt_of_le (Nat.le_add_right _ _)), Nat.add_sub_cancel_left,
      List.getElem?_idxOf (perm.mem_iff.mpr member)]
  · have further : second[id.index - table.symbols.size]? = none :=
      List.getElem?_eq_none_iff.mpr (perm.length_eq ▸ List.getElem?_eq_none_iff.mp beyond)
    rw [counterpart_of_none beyond, if_neg (show ¬ id.index < _ from outside),
      if_neg (show ¬ id.index < _ from outside), beyond, further]

/-- Hence the symbols that have a name, some of them before, are the same. -/
theorem Enters.renumbers (enters : Enters scope table first left)
    (others : Enters scope table second right) (perm : second.Perm first)
    (distinct : first.Nodup) {ids : List SymbolId} (there : ∀ id ∈ ids, table.HasSymbol id) :
    Renumbers left right (table.counterpart first second) (ids ++ table.entered first.length)
      (ids ++ table.entered second.length) where
  injective := counterpart_injective table perm distinct
  symbols := enters.symbol_counterpart others perm
  there := by
    refine List.forall_mem_append.mpr ⟨fun id old => ?_, fun id new => ?_⟩
    · exact enters.hasSymbol (there id old)
    · exact Nat.lt_of_lt_of_eq (mem_entered.mp new).2 enters.size_symbols.symm
  members := by
    intro other
    constructor
    · intro member
      refine ⟨table.counterpart second first other, ?_,
        counterpart_counterpart perm.symm (perm.nodup_iff.mpr distinct) other⟩
      refine List.mem_append.mpr ((List.mem_append.mp member).imp (fun old => ?_) fun new => ?_)
      · rwa [counterpart_of_hasSymbol (there other old)]
      · exact counterpart_mem_entered perm.symm new
    · rintro ⟨id, member, rfl⟩
      refine List.mem_append.mpr ((List.mem_append.mp member).imp (fun old => ?_) fun new => ?_)
      · rwa [counterpart_of_hasSymbol (there id old)]
      · exact counterpart_mem_entered perm new

/-- A type definition that gives a type its own name again, which is declared nowhere yet, when
only one of two orders begins with this type and no symbol has the name before. -/
def HingesOnOrder (table left : Table) (earlier : List SymbolId) (first second : List Symbol)
    (new : Symbol) : Prop :=
  earlier = [] ∧ (∀ symbol ∈ first, new.node ∉ symbol.declarations) ∧
    ∃ target type, new.kind = .typedefName (some target) ∧ ¬ table.HasSymbol target ∧
      left.symbol target = .ok type ∧ type.kind.isTagged = true ∧
      ¬ (first.head? = some type ↔ second.head? = some type)

/-- A type definition is judged by the first symbol. -/
theorem judge_typedef {aliased : Option SymbolId} (isTypedef : new.kind = .typedefName aliased)
    {id : SymbolId} {old : Symbol} (read : table.symbol id = .ok old) (rest : List SymbolId) :
    table.judge new (id :: rest) = .ok ((relation id old new).verdict id) := by
  rw [judge_cons read, if_neg]
  rcases relation_typedef isTypedef id old with same | same <;> simp [same]

/-- The same symbol under the same index decides alike. -/
theorem corresponds_of_kept (injective : rename.Injective) {id : SymbolId} (kept : rename id = id)
    (old new : Symbol) :
    Verdict.Corresponds rename ((relation id old new).verdict id)
      ((relation id old (new.renamed rename)).verdict id) := by
  have alike := relation_renamed injective id old new
  rw [kept] at alike
  have follows := Verdict.corresponds_renamed rename ((relation id old new).verdict id)
  rw [← Relation.verdict_renamed, kept] at follows
  rwa [alike]

/-- Two different symbols in front decide alike unless one of them is the type that a type
definition names. -/
theorem corresponds_iff_of_head {id : SymbolId} {type other : Symbol}
    {aliased : Option SymbolId} (isTypedef : new.kind = .typedefName aliased)
    (beside : type.StandsBeside other)
    (apart : aliased ≠ some id ∨ aliased.map rename ≠ some id) :
    Verdict.Corresponds rename ((relation id type new).verdict id)
        ((relation id other (new.renamed rename)).verdict id) ↔
      ¬ (type.kind.isTagged = true ∧ aliased = some id ∨
        other.kind.isTagged = true ∧ aliased.map rename = some id) := by
  have isTypedefToo : (new.renamed rename).kind = .typedefName (aliased.map rename) :=
    renamed_typedef isTypedef
  have merges := relation_typedef_eq_merge_iff isTypedef id beside.notBoth.2.2.2.1
  have mergesToo := relation_typedef_eq_merge_iff isTypedefToo id beside.notBoth.2.2.2.2
  rw [← merges, ← mergesToo]
  have notBoth : ¬ (relation id type new = .merge ∧
      relation id other (new.renamed rename) = .merge) := by
    rintro ⟨here, there⟩
    exact apart.elim (fun differs => differs (merges.mp here).2) fun differs =>
      differs (mergesToo.mp there).2
  rcases relation_typedef isTypedef id type with here | here <;>
    rcases relation_typedef isTypedefToo id other with there | there
  · exact absurd ⟨here, there⟩ notBoth
  · rw [here, there]
    exact iff_of_false (fun same => nomatch same) fun none => none (.inl rfl)
  · rw [here, there]
    exact iff_of_false (fun same => nomatch same) fun none => none (.inr rfl)
  · rw [here, there]
    exact iff_of_true (.refused _ _ _) (by simp)

theorem entered_succ (table : Table) (count : Nat) :
    ∃ rest, table.entered (count + 1) = table.nextSymbol :: rest := by
  unfold entered
  rw [List.range_succ_eq_map, List.map_cons]
  exact ⟨_, rfl⟩

/-- Different indices are those of different symbols. -/
theorem Enters.symbol_inj (enters : Enters scope table first left) (distinct : first.Nodup)
    {id other : SymbolId} (outside : ¬ table.HasSymbol id) (outsideToo : ¬ table.HasSymbol other)
    {symbol : Symbol} (read : left.symbol id = .ok symbol)
    (readToo : left.symbol other = .ok symbol) : id = other := by
  rw [enters.symbol_eq_ok_iff outside] at read
  rw [enters.symbol_eq_ok_iff outsideToo] at readToo
  rcases List.getElem?_eq_some_iff.mp read with ⟨below, same⟩
  rcases List.getElem?_eq_some_iff.mp readToo with ⟨belowToo, sameToo⟩
  have positions := distinct.getElem_inj_iff.mp (same.trans sameToo.symm)
  have outside : table.symbols.size ≤ id.index := Nat.le_of_not_lt outside
  have outsideToo : table.symbols.size ≤ other.index := Nat.le_of_not_lt outsideToo
  exact SymbolId.index_inj.mp (by omega)

/-- The first symbol that is entered gets the next index. -/
theorem Enters.symbol_iff_nextSymbol {symbol : Symbol} {later : List Symbol}
    (enters : Enters scope table (symbol :: later) left) (distinct : (symbol :: later).Nodup)
    {id : SymbolId} (outside : ¬ table.HasSymbol id) :
    left.symbol id = .ok symbol ↔ id = table.nextSymbol := by
  have next : ¬ table.HasSymbol table.nextSymbol := Nat.lt_irrefl _
  have front : left.symbol table.nextSymbol = .ok symbol := by
    rw [enters.symbol_eq_ok_iff next, nextSymbol, Nat.sub_self, List.getElem?_cons_zero]
  exact ⟨fun read => enters.symbol_inj distinct outside next read front, fun same => same ▸ front⟩

/-- If no symbol has the name before, a type definition hinges on the order exactly if one of two
different symbols in front is the type that it names. -/
theorem hingesOnOrder_iff_of_head {type other : Symbol} {later laterToo : List Symbol}
    {aliased : Option SymbolId} (enters : Enters scope table (type :: later) left)
    (others : Enters scope table (other :: laterToo) right)
    (perm : (other :: laterToo).Perm (type :: later)) (distinct : (type :: later).Nodup)
    (differ : type ≠ other) (isTypedef : new.kind = .typedefName aliased)
    (unseen : ∀ symbol ∈ type :: later, new.node ∉ symbol.declarations) :
    (type.kind.isTagged = true ∧ aliased = some table.nextSymbol ∨
      other.kind.isTagged = true ∧
        aliased.map (table.counterpart (type :: later) (other :: laterToo)) =
          some table.nextSymbol) ↔
      HingesOnOrder table left [] (type :: later) (other :: laterToo) new := by
  have next : ¬ table.HasSymbol table.nextSymbol := Nat.lt_irrefl _
  have symbols := enters.symbol_counterpart others perm
  constructor
  · rintro (⟨tagged, names⟩ | ⟨tagged, names⟩)
    · refine ⟨rfl, unseen, table.nextSymbol, type, names ▸ isTypedef, next, ?_, tagged, ?_⟩
      · exact (enters.symbol_iff_nextSymbol distinct next).mpr rfl
      · exact fun same => differ (Option.some.inj (same.mp rfl)).symm
    · rcases Option.map_eq_some_iff.mp names with ⟨target, rfl, moved⟩
      have outside : ¬ table.HasSymbol target := fun inside =>
        next (moved ▸ (counterpart_of_hasSymbol inside).symm ▸ inside)
      refine ⟨rfl, unseen, target, other, isTypedef, outside, ?_, tagged, ?_⟩
      · rw [← symbols, moved]
        exact (others.symbol_iff_nextSymbol (perm.nodup_iff.mpr distinct) next).mpr rfl
      · exact fun same => differ (Option.some.inj (same.mpr rfl))
  · rintro ⟨-, -, target, found, names, outside, read, tagged, once⟩
    have aliasedIs : aliased = some target := by
      injection isTypedef.symm.trans names
    by_cases here : type = found
    · subst here
      rw [enters.symbol_iff_nextSymbol distinct outside] at read
      exact .inl ⟨tagged, read ▸ aliasedIs⟩
    · have there : other = found := by
        by_contra apart
        exact once (iff_of_false (mt Option.some.inj here) (mt Option.some.inj apart))
      subst there
      have moved : ¬ table.HasSymbol
          (table.counterpart (type :: later) (other :: laterToo) target) := by
        rw [counterpart_of_some outside ((enters.symbol_eq_ok_iff outside).mp read)]
        exact Nat.not_lt_of_le (Nat.le_add_right _ _)
      rw [← symbols, others.symbol_iff_nextSymbol (perm.nodup_iff.mpr distinct) moved] at read
      exact .inr ⟨tagged, by rw [aliasedIs, Option.map_some, read]⟩

/-- A type definition is judged by the symbol that was entered first. -/
theorem corresponds_of_typedef (enters : Enters scope table first left)
    (others : Enters scope table second right) (perm : second.Perm first)
    (pairwise : first.Pairwise StandsBeside) {aliased : Option SymbolId}
    (isTypedef : new.kind = .typedefName aliased)
    (unseen : ∀ symbol ∈ first, new.node ∉ symbol.declarations) :
    ∃ verdict other, left.judge new (table.entered first.length) = .ok verdict ∧
      right.judge (new.renamed (table.counterpart first second))
        (table.entered second.length) = .ok other ∧
      (verdict.Corresponds (table.counterpart first second) other ↔
        ¬ HingesOnOrder table left [] first second new) := by
  have distinct : first.Nodup := pairwise.imp fun both => both.ne
  have next : ¬ table.HasSymbol table.nextSymbol := Nat.lt_irrefl _
  cases first with
  | nil =>
    cases List.perm_nil.mp perm
    refine ⟨.fresh, .fresh, rfl, rfl, iff_of_true .fresh ?_⟩
    rintro ⟨-, -, _, _, -, -, -, -, once⟩
    exact once Iff.rfl
  | cons type later =>
    cases second with
    | nil => exact absurd perm (List.not_perm_nil_cons _ _)
    | cons other laterToo =>
      have read := (enters.symbol_iff_nextSymbol distinct next).mpr rfl
      have readToo := (others.symbol_iff_nextSymbol (perm.nodup_iff.mpr distinct) next).mpr rfl
      have moved : table.counterpart (type :: later) (other :: laterToo) table.nextSymbol =
          ⟨table.symbols.size + (other :: laterToo).idxOf type⟩ :=
        counterpart_of_some next (by rw [nextSymbol, Nat.sub_self, List.getElem?_cons_zero])
      rcases table.entered_succ later.length with ⟨rest, front⟩
      rcases table.entered_succ laterToo.length with ⟨restToo, frontToo⟩
      refine ⟨_, _, (congrArg _ front).trans (judge_typedef isTypedef read rest),
        (congrArg _ frontToo).trans (judge_typedef (renamed_typedef isTypedef) readToo restToo), ?_⟩
      by_cases same : type = other
      · subst same
        have injective := counterpart_injective table perm distinct
        refine iff_of_true (corresponds_of_kept injective ?_ type new) ?_
        · rw [moved, List.idxOf_cons_self]
          rfl
        · rintro ⟨-, -, _, _, -, -, -, -, once⟩
          exact once Iff.rfl
      · have among : other ∈ type :: later := perm.subset (List.mem_cons_self ..)
        have beside : type.StandsBeside other :=
          pairwise.forall (List.mem_cons_self ..) among same
        rw [corresponds_iff_of_head isTypedef beside ?_,
          hingesOnOrder_iff_of_head enters others perm distinct same isTypedef unseen]
        by_contra both
        rcases not_or.mp both with ⟨here, there⟩
        rw [not_not.mp here, Option.map_some, moved, List.idxOf_cons_ne _ (Ne.symm same)] at there
        have indices := congrArg SymbolId.index (Option.some.inj (not_not.mp there))
        exact absurd indices (Nat.ne_of_gt (Nat.lt_add_of_pos_right (Nat.succ_pos _)))

/-- What is entered under different indices stands side by side. -/
theorem Enters.standsBeside_of_entered (enters : Enters scope table first left)
    (pairwise : first.Pairwise StandsBeside) :
    ∀ id ∈ table.entered first.length, ∀ other ∈ table.entered first.length, id ≠ other →
      ∀ old oldToo, left.symbol id = .ok old → left.symbol other = .ok oldToo →
        old.StandsBeside oldToo := by
  intro id member other memberToo differ old oldToo read readToo
  have outside := (mem_entered.mp member).1
  have outsideToo := (mem_entered.mp memberToo).1
  refine pairwise.forall (List.mem_of_getElem? ((enters.symbol_eq_ok_iff outside).mp read))
    (List.mem_of_getElem? ((enters.symbol_eq_ok_iff outsideToo).mp readToo)) ?_
  rintro rfl
  have distinct : first.Nodup := pairwise.imp fun both => both.ne
  exact differ (enters.symbol_inj distinct outside outsideToo read readToo)

/-- The symbols that a declaration is judged by after two orders of the same declarations decide
alike, unless the declaration hinges on the order. -/
theorem corresponds_of_enters (enters : Enters scope table first left)
    (others : Enters scope table second right) (perm : second.Perm first)
    (pairwise : first.Pairwise StandsBeside) {ids : List SymbolId}
    (there : ∀ id ∈ ids, table.HasSymbol id)
    (unseen : ∀ symbol ∈ first, new.node ∉ symbol.declarations) :
    ∃ verdict other, left.judge new (ids ++ table.entered first.length) = .ok verdict ∧
      right.judge (new.renamed (table.counterpart first second))
        (ids ++ table.entered second.length) = .ok other ∧
      (verdict.Corresponds (table.counterpart first second) other ↔
        ¬ HingesOnOrder table left ids first second new) := by
  have distinct : first.Nodup := pairwise.imp fun both => both.ne
  have injective := counterpart_injective table perm distinct
  -- the symbols in front are the same ones, so they decide alike
  rcases exists_judge new fun id member => enters.hasSymbol (there id member) with
    ⟨verdict, judged⟩
  have judgedToo : right.judge (new.renamed (table.counterpart first second)) ids =
      .ok (verdict.renamed (table.counterpart first second)) := by
    have follows := judge_renamed injective (enters.symbol_counterpart others perm) new ids
    rwa [List.map_congr_left fun id member => counterpart_of_hasSymbol (there id member),
      List.map_id', judged] at follows
  rw [judge_append judged, judge_append judgedToo, if_congr Verdict.renamed_eq_fresh_iff rfl rfl]
  by_cases fresh : verdict = .fresh
  · subst fresh
    rw [if_pos rfl, if_pos rfl]
    by_cases typedef : ∃ aliased, new.kind = .typedefName aliased
    · rcases typedef with ⟨aliased, isTypedef⟩
      have none : ids = [] := by
        refine List.eq_nil_iff_forall_not_mem.mpr fun id member => ?_
        rcases of_judge_fresh judged id member with ⟨old, -, coexists⟩
        rcases relation_typedef isTypedef id old with same | same <;>
          exact absurd (coexists.symm.trans same) (by decide)
      subst none
      exact corresponds_of_typedef enters others perm pairwise isTypedef unseen
    · have noTypedef := not_exists.mp typedef
      have entered := enters.renumbers others perm distinct (List.forall_mem_nil table.HasSymbol)
      rw [List.nil_append, List.nil_append] at entered
      rcases entered.corresponds (enters.standsBeside_of_entered pairwise) noTypedef with
        ⟨verdict, other, here, there, same⟩
      refine ⟨verdict, other, here, there, iff_of_true same ?_⟩
      rintro ⟨-, -, target, _, isTypedef, -⟩
      exact noTypedef _ isTypedef
  · rw [if_neg fresh, if_neg fresh]
    refine ⟨_, _, rfl, rfl, iff_of_true (Verdict.corresponds_renamed _ verdict) ?_⟩
    rintro ⟨rfl, -⟩
    cases judged
    exact fresh rfl

/-- What is entered is found under its index. -/
theorem Enters.forall_entered_iff (enters : Enters scope table first left)
    (property : Symbol → Prop) :
    (∀ id ∈ table.entered first.length, ∃ symbol, left.symbol id = .ok symbol ∧ property symbol) ↔
      ∀ symbol ∈ first, property symbol := by
  constructor
  · intro all symbol member
    rcases List.getElem_of_mem member with ⟨offset, below, rfl⟩
    have later : ¬ table.HasSymbol ⟨table.symbols.size + offset⟩ :=
      Nat.not_lt_of_le (Nat.le_add_right _ _)
    rcases all ⟨table.symbols.size + offset⟩
      (mem_entered.mpr ⟨later, Nat.add_lt_add_left below _⟩) with ⟨symbol, read, holds⟩
    rw [enters.symbol_eq_ok_iff later, Nat.add_sub_cancel_left,
      List.getElem?_eq_getElem below] at read
    exact Option.some.inj read ▸ holds
  · intro all id member
    rcases mem_entered.mp member with ⟨outside, below⟩
    have inside : id.index - table.symbols.size < first.length := by
      have outside : table.symbols.size ≤ id.index := Nat.le_of_not_lt outside
      omega
    exact ⟨_, (enters.symbol_eq_ok_iff outside).mpr (List.getElem?_eq_getElem inside),
      all _ (List.getElem_mem inside)⟩

/-- Both orders go on with the same index. -/
theorem Enters.counterpart_nextSymbol (enters : Enters scope table first left)
    (others : Enters scope table second right) (perm : second.Perm first) :
    table.counterpart first second left.nextSymbol = right.nextSymbol := by
  rw [counterpart_of_none]
  · rw [nextSymbol, nextSymbol, enters.size_symbols, others.size_symbols, perm.length_eq]
  · rw [nextSymbol, enters.size_symbols, Nat.add_sub_cancel_left]
    exact List.getElem?_eq_none_iff.mpr (Nat.le_refl _)

end TwoOrders

/-! ## Answers -/

/-- Two answers that say the same, whatever symbol is in the way of a declaration. -/
def SameAnswer (rename : SymbolId → SymbolId) :
    Except Refusal SymbolId → Except Refusal SymbolId → Prop
  | .ok id, .ok other => rename id = other
  | .error refusal, .error other => refusal.redefinition = other.redefinition
  | _, _ => False

/-- New symbols are told from those that are declared again, so verdicts correspond exactly if the
answers say the same. -/
theorem sameAnswer_iff {verdict other : Verdict} (injective : rename.Injective)
    (next : rename left.nextSymbol = right.nextSymbol)
    (there : ∀ id, verdict = .again id → left.HasSymbol id)
    (thereToo : ∀ id, other = .again id → right.HasSymbol id) :
    SameAnswer rename (verdict.answer left) (other.answer right) ↔
      verdict.Corresponds rename other := by
  cases verdict with
  | fresh =>
    cases other with
    | fresh => exact iff_of_true next .fresh
    | again id =>
      refine iff_of_false (fun same => ?_) fun same => nomatch same
      exact ne_nextSymbol (thereToo id rfl) (same.symm.trans next)
    | refused => exact iff_of_false id fun same => nomatch same
  | again id =>
    cases other with
    | fresh =>
      refine iff_of_false (fun same => ?_) fun same => nomatch same
      exact ne_nextSymbol (there id rfl) (injective (same.trans next.symm))
    | again other =>
      refine ⟨?_, fun same => by cases same; rfl⟩
      rintro rfl
      exact .again id
    | refused => exact iff_of_false (fun same => same) fun same => nomatch same
  | refused refusal =>
    cases other with
    | fresh | again => exact iff_of_false (fun same => same) fun same => nomatch same
    | refused other =>
      rcases refusal with ⟨previous, redefinition⟩
      rcases other with ⟨previousToo, redefinitionToo⟩
      refine ⟨?_, fun same => by cases same; rfl⟩
      rintro rfl
      exact .refused _ _ _

/-- Whatever is declared after the same declarations in two orders, each of them a new symbol of
one name, is judged alike, unless it hinges on the order. -/
theorem verdict_perm {scope : ScopeId} {name : Encoding} {found : Scope}
    {first second : List Symbol} (read : table.scope scope = .ok found)
    (there : ∀ id ∈ found.named name, table.HasSymbol id)
    (enters : Enters scope table first left) (others : Enters scope table second right)
    (perm : second.Perm first) (names : ∀ symbol ∈ first, symbol.name = name)
    (sameName : new.name = name) :
    ∃ verdict other, left.verdict scope new = .ok verdict ∧
      right.verdict scope (new.renamed (table.counterpart first second)) = .ok other ∧
      (verdict.Corresponds (table.counterpart first second) other ↔
        ¬ HingesOnOrder table left (found.named name) first second new) := by
  subst sameName
  have namesToo : ∀ symbol ∈ second, symbol.name = new.name := fun symbol member =>
    names symbol (perm.subset member)
  have pairwise := enters.pairwise names
  have distinct : first.Nodup := pairwise.imp fun both => both.ne
  have renumbers := enters.renumbers others perm distinct there
  rcases enters.named names read there with ⟨scopeLeft, readLeft, namedLeft⟩
  rcases others.named namesToo read there with ⟨scopeRight, readRight, namedRight⟩
  rw [← namedLeft, ← namedRight] at renumbers
  -- a node that declares a symbol of the name already is refused in both orders
  by_cases unseen : left.declaredBy? new.node (scopeLeft.named new.name) = .ok none
  · have unseenToo := (renumbers.declared_iff new.node).mp unseen
    have undeclared : ∀ symbol ∈ first, new.node ∉ symbol.declarations := by
      rw [declaredBy?_eq_none_iff, namedLeft] at unseen
      exact (enters.forall_entered_iff _).mp fun id member =>
        unseen id (List.mem_append_right _ member)
    rw [verdict_of_unseen new readLeft unseen,
      verdict_of_unseen (new.renamed _) readRight unseenToo]
    have judged := corresponds_of_enters enters others perm pairwise there undeclared
    rw [← namedLeft, ← namedRight] at judged
    exact judged
  · have seenToo := mt (renumbers.declared_iff new.node).mpr unseen
    rcases exists_declaredBy? new.node renumbers.there with ⟨earlier, declared⟩
    rcases exists_declaredBy? new.node renumbers.thereToo with ⟨earlierToo, declaredToo⟩
    cases earlier with
    | none => exact absurd declared unseen
    | some previous =>
      cases earlierToo with
      | none => exact absurd declaredToo seenToo
      | some previousToo =>
        refine ⟨_, _, verdict_of_seen new readLeft declared,
          verdict_of_seen (new.renamed _) readRight declaredToo,
          iff_of_true (.refused _ _ _) ?_⟩
        rintro ⟨nothing, nowhere, -⟩
        refine unseen (declaredBy?_eq_none_iff.mpr ?_)
        rw [namedLeft, nothing, List.nil_append]
        exact (enters.forall_entered_iff _).mpr nowhere

/-- Whatever is declared after the same declarations in two orders, each of them a new symbol of
one name, gets the same answer: it is a new symbol, it declares the same symbol again, or it is
refused as a redeclaration or as a redefinition.  The exception is a type definition that gives a
class, an enumeration or a class template its own name again, where this is the first symbol of
its name in one of the orders only. -/
theorem declare_perm {scope : ScopeId} {name : Encoding} {found : Scope}
    {first second : List Symbol} (read : table.scope scope = .ok found)
    (there : ∀ id ∈ found.named name, table.HasSymbol id)
    (enters : Enters scope table first left) (others : Enters scope table second right)
    (perm : second.Perm first) (names : ∀ symbol ∈ first, symbol.name = name) (new : Symbol)
    (sameName : new.name = name) :
    ∃ after answer afterToo answerToo,
      left.declare scope new = .ok (after, answer) ∧
      right.declare scope (new.renamed (table.counterpart first second)) =
        .ok (afterToo, answerToo) ∧
      (SameAnswer (table.counterpart first second) answer answerToo ↔
        ¬ HingesOnOrder table left (found.named name) first second new) := by
  have distinct : first.Nodup := (enters.pairwise names).imp fun both => both.ne
  have injective := counterpart_injective table perm distinct
  rcases verdict_perm read there enters others perm names sameName with
    ⟨verdict, other, judged, judgedToo, same⟩
  rcases Outcome.of_bind judged with ⟨scopeLeft, readLeft, -⟩
  rcases Outcome.of_bind judgedToo with ⟨scopeRight, readRight, -⟩
  rcases declare_of_verdict readLeft judged with ⟨after, done⟩
  rcases declare_of_verdict readRight judgedToo with ⟨afterToo, doneToo⟩
  refine ⟨after, _, afterToo, _, done, doneToo, ?_⟩
  rw [← same]
  refine sameAnswer_iff injective (enters.counterpart_nextSymbol others perm) ?_ ?_
  · rintro id rfl
    exact hasSymbol_of_verdict judged
  · rintro id rfl
    exact hasSymbol_of_verdict judgedToo

/-- A class `S`, a function `S` without parameters, and `typedef struct S S`. -/
def classS : Symbol :=
  .ofDeclaration ⟨[0x81, 0x53]⟩ (.classType true) ⟨[0x81, 0x53]⟩ global 2 none

@[inherit_doc classS]
def functionS : Symbol :=
  .ofDeclaration ⟨[0x81, 0x53]⟩ (.function ⟨0, 0, false⟩ false) ⟨[0x46, 0x76, 0x5F, 0x76]⟩ global 4
    none

@[inherit_doc classS]
def typedefS : Symbol :=
  .ofDeclaration ⟨[0x81, 0x53]⟩ (.typedefName (some ⟨0⟩)) ⟨[0x81, 0x53]⟩ global 6 none

/-- Behind the class and the function the type definition declares the class again; behind the
function and the class it is refused. -/
theorem declare_perm_typedef :
    ∃ left right, Enters global initial [classS, functionS] left ∧
      Enters global initial [functionS, classS] right ∧
      [functionS, classS].Perm [classS, functionS] ∧
      HingesOnOrder initial left [] [classS, functionS] [functionS, classS] typedefS ∧
      ∃ after answer afterToo answerToo,
        left.declare global typedefS = .ok (after, answer) ∧
        right.declare global
          (typedefS.renamed (initial.counterpart [classS, functionS] [functionS, classS])) =
            .ok (afterToo, answerToo) ∧
        ¬ SameAnswer (initial.counterpart [classS, functionS] [functionS, classS]) answer
          answerToo := by
  have enters : ∃ left, Enters global initial [classS, functionS] left ∧
      left.symbol ⟨0⟩ = .ok classS := ⟨_, .cons rfl (.cons rfl (.nil _)), rfl⟩
  have others : ∃ right, Enters global initial [functionS, classS] right :=
    ⟨_, .cons rfl (.cons rfl (.nil _))⟩
  rcases enters with ⟨left, enters, read⟩
  rcases others with ⟨right, others⟩
  have perm : [functionS, classS].Perm [classS, functionS] := .swap ..
  have hinges : HingesOnOrder initial left [] [classS, functionS] [functionS, classS] typedefS :=
    ⟨rfl, by decide, ⟨0⟩, classS, rfl, Nat.lt_irrefl 0, read, rfl, by decide⟩
  have unused : ∀ id ∈ (Scope.ofRegion (.namespaceBody .empty [] []) none).named classS.name,
      initial.HasSymbol id := fun id member => absurd member List.not_mem_nil
  rcases declare_perm rfl unused enters others perm (by decide) typedefS rfl with
    ⟨after, answer, afterToo, answerToo, done, doneToo, same⟩
  exact ⟨left, right, enters, others, perm, hinges, after, answer, afterToo, answerToo, done,
    doneToo, fun alike => same.mp alike hinges⟩

end Table
end CppNames
