import CppNames.Proofs.Table.Redeclaration

namespace CppNames

/-!
# The declaration that stands for a symbol

A symbol that is declared several times keeps the nodes of all its declarations and shows the
node and the place of one of them.  Of the declarations that may be repeated, those of variables,
functions, classes and templates of both, one at most is a definition, and once it is there it
is the one that is shown.

Before that the first declaration is shown, with one exception.  A typedef may give a class its
own name again, and then it is merged with the class.  A typedef always counts as defined, so a
merge takes it for the definition of a class that has none: it becomes the node of the class,
which goes on being undefined, and the next such typedef takes its place.  `Represents` says which
declaration is shown, and `represents_of_steps` is the law for every run of declarations and new
scopes.
-/

namespace SymbolKind

/-- Whether the symbol is a type definition. -/
def isTypedef : SymbolKind → Bool
  | .typedefName _ => true
  | _ => false

/-- Whether the symbol is a variable, a class, a function or a template, which may be declared
several times and defined once.  A constant is a variable whose value is known. -/
def isRedeclarable : SymbolKind → Bool
  | .object _ | .constant _ | .classType _ | .classTemplate _ | .function .. |
    .functionTemplate .. => true
  | _ => false

/-- Whether a declaration of this kind defines what may be declared several times. -/
def isDefinition (kind : SymbolKind) : Bool := kind.isDefined && !kind.isTypedef

end SymbolKind

namespace Symbol

/-- Whether a declaration is a definition of its symbol. -/
def isDefinition (declaration : Symbol) : Bool := declaration.kind.isDefinition

/-- Whether a declaration is a type definition. -/
def isTypedef (declaration : Symbol) : Bool := declaration.kind.isTypedef

/-- The declaration that stands for a symbol without a definition: the last type definition, or
else the first declaration. -/
def undefinedFront? (declarations : List Symbol) : Option Symbol :=
  (declarations.reverse.find? isTypedef).or declarations.head?

/-- What a symbol knows of its declarations. -/
structure Represents (symbol : Symbol) (declarations : List Symbol) : Prop where
  nodes : symbol.declarations = declarations.map (·.node)
  distinct : symbol.declarations.Nodup
  once : declarations.countP isDefinition ≤ 1
  defined : symbol.isDefined = declarations.any isDefinition
  definition : ∀ declaration ∈ declarations, declaration.isDefinition = true →
    symbol.node = declaration.node ∧ symbol.span = declaration.span
  undefined : symbol.isDefined = false → ∃ shown, undefinedFront? declarations = some shown ∧
    symbol.node = shown.node ∧ symbol.span = shown.span

/-- Without type definitions the first declaration stands for a symbol that is not defined. -/
theorem Represents.first {symbol first : Symbol} {later : List Symbol}
    (represents : symbol.Represents (first :: later)) (undefined : symbol.isDefined = false)
    (noTypedef : ∀ declaration ∈ first :: later, declaration.isTypedef = false) :
    symbol.node = first.node ∧ symbol.span = first.span := by
  rcases represents.undefined undefined with ⟨shown, front, node, span⟩
  have none : (first :: later).reverse.find? isTypedef = none :=
    List.find?_eq_none.mpr fun declaration member => by
      rw [noTypedef declaration (List.mem_reverse.mp member)]
      exact Bool.false_ne_true
  rw [undefinedFront?, none] at front
  cases front
  exact ⟨node, span⟩

/-- The only declaration stands for its symbol. -/
theorem Represents.single {symbol : Symbol} (single : symbol.declarations = [symbol.node])
    (redeclarable : symbol.kind.isRedeclarable = true) : symbol.Represents [symbol] := by
  have noTypedef : symbol.isTypedef = false := by
    revert redeclarable
    unfold isTypedef
    cases symbol.kind <;> simp [SymbolKind.isRedeclarable, SymbolKind.isTypedef]
  have same : symbol.isDefined = symbol.isDefinition := by
    unfold isDefined isDefinition SymbolKind.isDefinition
    rw [show symbol.kind.isTypedef = false from noTypedef, Bool.not_false, Bool.and_true]
  refine ⟨single, single ▸ List.nodup_singleton _, List.countP_le_length, ?_, ?_, fun _ => ?_⟩
  · rw [same, List.any_cons, List.any_nil, Bool.or_false]
  · rintro declaration member -
    rw [List.mem_singleton.mp member]
    exact ⟨rfl, rfl⟩
  · refine ⟨symbol, ?_, rfl, rfl⟩
    simp [undefinedFront?, noTypedef]

end Symbol

namespace Table

open CppNames.Symbol (Represents undefinedFront?)

/-! ## Merging a declaration -/

/-- The kinds of a symbol and of a declaration that is merged with it. -/
inductive Merges (id : SymbolId) : SymbolKind → SymbolKind → Prop where
  | namespaces : Merges id .namespaceName .namespaceName
  | functions {s t : Signature} {a b : Bool} (once : (a && b) = false) :
    Merges id (.function s a) (.function t b)
  | functionTemplates {s t : Signature} {a b : Bool} (once : (a && b) = false) :
    Merges id (.functionTemplate s a) (.functionTemplate t b)
  | classes {a b : Bool} (once : (a && b) = false) : Merges id (.classType a) (.classType b)
  | classTemplates {a b : Bool} (once : (a && b) = false) :
    Merges id (.classTemplate a) (.classTemplate b)
  | objects {a b : Bool} (once : (a && b) = false) : Merges id (.object a) (.object b)
  | valued {value : Option Int64} : Merges id (.object false) (.constant value)
  | announced {value : Option Int64} : Merges id (.constant value) (.object false)
  | typedefs {a b : Option SymbolId} : Merges id (.typedefName a) (.typedefName b)
  | classAgain {a : Bool} : Merges id (.classType a) (.typedefName (some id))
  | enumAgain : Merges id .enumType (.typedefName (some id))
  | classTemplateAgain {a : Bool} : Merges id (.classTemplate a) (.typedefName (some id))

theorem of_definedOnce {a b : Bool} (merges : definedOnce a b = .merge) : (a && b) = false := by
  unfold definedOnce at merges
  split at merges
  · cases merges
  · next apart => exact Bool.eq_false_iff.mpr apart

theorem merges_of_relation {id : SymbolId} {old new : Symbol}
    (merges : relation id old new = .merge) : Merges id old.kind new.kind := by
  have never : ∀ {first second : Bool}, (if first = true then Relation.coexist
      else if second = true then .coexist else .conflict) ≠ .merge := by
    intro first second
    cases first <;> cases second <;> simp
  -- where the types must agree, they do
  have typed : ∀ {test : Bool} {first second : Relation},
      (if test = true then first else second) = .merge → second ≠ .merge → first = .merge := by
    intro test first second same other
    split at same
    · exact same
    · exact absurd same other
  have renamed : ∀ {target : SymbolId} {second : Relation},
      (if target = id then Relation.merge else second) = .merge → second ≠ .merge →
        target = id := by
    intro target second same other
    split at same
    · assumption
    · exact absurd same other
  rcases old with ⟨_, old, _⟩
  rcases new with ⟨_, new, _⟩
  unfold relation at merges
  dsimp only at merges ⊢
  split at merges
  · exact .namespaces
  · exact .functions (of_definedOnce (typed merges (by decide)))
  · exact .functionTemplates (of_definedOnce (typed merges (by decide)))
  · cases merges
  · cases merges
  · exact .classes (of_definedOnce merges)
  · exact .classTemplates (of_definedOnce merges)
  · cases merges
  · exact .typedefs
  · rcases renamed merges never with rfl
    exact .classAgain
  · rcases renamed merges never with rfl
    exact .enumAgain
  · rcases renamed merges never with rfl
    exact .classTemplateAgain
  · exact .objects (of_definedOnce (typed merges never))
  · exact .valued
  · exact .announced
  · exact absurd merges never

/-- What is merged with a symbol that may be declared several times makes it defined if it is a
definition, and then it is the first one. -/
theorem Merges.isDefined {id : SymbolId} {old new : SymbolKind} (merges : Merges id old new)
    (redeclarable : old.isRedeclarable = true) :
    (mergedKind old new).isDefined = (old.isDefined || new.isDefinition) ∧
      (old.isDefined && new.isDefinition) = false := by
  cases merges with
  | namespaces | typedefs | enumAgain => cases redeclarable
  | functions once | functionTemplates once | classes once | classTemplates once | objects once =>
    simpa [mergedKind, SymbolKind.isDefined, SymbolKind.isDefinition, SymbolKind.isTypedef] using once
  | valued | announced | classAgain | classTemplateAgain =>
    simp [mergedKind, SymbolKind.isDefined, SymbolKind.isDefinition, SymbolKind.isTypedef]

theorem isRedeclarable_mergedKind (old new : SymbolKind) :
    (mergedKind old new).isRedeclarable = old.isRedeclarable := by
  cases old <;> cases new <;> rfl

/-- What counts as defined is a definition or a type definition. -/
theorem Merges.counts {id : SymbolId} {old new : SymbolKind} (merges : Merges id old new)
    (redeclarable : old.isRedeclarable = true) :
    new.isDefined = (new.isDefinition || new.isTypedef) := by
  cases merges with
  | namespaces | typedefs | enumAgain => cases redeclarable
  | _ => simp [SymbolKind.isDefined, SymbolKind.isDefinition, SymbolKind.isTypedef]

section Merge

variable {id : SymbolId} {old new : Symbol} {declarations : List Symbol}

/-- While there is no definition, a type definition comes to stand for the symbol, and any other
declaration does not. -/
theorem undefinedFront?_concat {shown : Symbol} (front : undefinedFront? declarations = some shown)
    (new : Symbol) :
    undefinedFront? (declarations ++ [new]) = some (if new.isTypedef then new else shown) := by
  unfold undefinedFront? at front ⊢
  rw [List.reverse_concat]
  cases isTypedef : new.isTypedef with
  | true => rw [List.find?_cons_of_pos isTypedef, Option.some_or, if_pos rfl]
  | false =>
    rw [List.find?_cons_of_neg (Bool.eq_false_iff.mp isTypedef), if_neg Bool.false_ne_true]
    cases last : declarations.reverse.find? Symbol.isTypedef with
    | some other =>
      rw [last] at front
      exact front
    | none =>
      rw [last] at front
      have head : declarations.head? = some shown := front
      rw [Option.none_or, List.head?_append, head, Option.some_or]

/-- A declaration that defines a symbol, the first one that counts as defined, is shown. -/
theorem shown_of_defines (old new : Symbol)
    (defines : (new.isDefined && !old.isDefined) = true) :
    (merged old new).node = new.node ∧ (merged old new).span = new.span :=
  ⟨if_pos defines, if_pos defines⟩

/-- Any other declaration leaves the one in place that is shown. -/
theorem shown_of_defines_not (old new : Symbol)
    (defines : (new.isDefined && !old.isDefined) = false) :
    (merged old new).node = old.node ∧ (merged old new).span = old.span :=
  have notDefines := Bool.eq_false_iff.mp defines
  ⟨if_neg notDefines, if_neg notDefines⟩

/-- A definition that is merged is the only one. -/
theorem countP_definitions_concat (represents : old.Represents declarations)
    (once : (old.isDefined && new.isDefinition) = false) :
    (declarations ++ [new]).countP Symbol.isDefinition ≤ 1 := by
  rw [List.countP_append, List.countP_singleton]
  cases isDefinition : new.isDefinition with
  | false => exact represents.once
  | true =>
    rw [isDefinition, Bool.and_true, represents.defined] at once
    have none : declarations.countP Symbol.isDefinition = 0 :=
      List.countP_eq_zero.mpr fun declaration member passes =>
        Bool.eq_false_iff.mp once (List.any_eq_true.mpr ⟨declaration, member, passes⟩)
    simp [none]

/-- A symbol knows of its declarations, and of one more once that is merged. -/
theorem represents_merged (represents : old.Represents declarations)
    (merges : Merges id old.kind new.kind) (redeclarable : old.kind.isRedeclarable = true)
    (unseen : new.node ∉ old.declarations) :
    (merged old new).Represents (declarations ++ [new]) := by
  rcases merges.isDefined redeclarable with ⟨defined, once⟩
  have counts : new.isDefined = (new.isDefinition || new.isTypedef) := merges.counts redeclarable
  have defined : (merged old new).isDefined = (old.isDefined || new.isDefinition) := defined
  have once : (old.isDefined && new.isDefinition) = false := once
  constructor
  case nodes =>
    rw [List.map_append, ← represents.nodes]
    rfl
  case distinct =>
    have distinct := List.Nodup.concat unseen represents.distinct
    rw [List.concat_eq_append] at distinct
    exact distinct
  case once => exact countP_definitions_concat represents once
  case defined =>
    rw [defined, represents.defined, List.any_append, List.any_cons, List.any_nil, Bool.or_false]
  case definition =>
    intro declaration member isDefinition
    rcases List.mem_append.mp member with member | member
    · have wasDefined : old.isDefined = true := by
        rw [represents.defined]
        exact List.any_eq_true.mpr ⟨declaration, member, isDefinition⟩
      rcases shown_of_defines_not old new (by rw [wasDefined, Bool.not_true, Bool.and_false])
        with ⟨node, span⟩
      rcases represents.definition declaration member isDefinition with ⟨sameNode, sameSpan⟩
      exact ⟨node.trans sameNode, span.trans sameSpan⟩
    · rw [List.mem_singleton.mp member] at isDefinition ⊢
      rw [isDefinition, Bool.and_true] at once
      exact shown_of_defines old new (by rw [counts, isDefinition, once]; rfl)
  case undefined =>
    intro undefined
    rcases Bool.or_eq_false_iff.mp (defined ▸ undefined) with ⟨wasUndefined, noDefinition⟩
    rcases represents.undefined wasUndefined with ⟨shown, front, sameNode, sameSpan⟩
    refine ⟨_, undefinedFront?_concat front new, ?_⟩
    rw [noDefinition, Bool.false_or] at counts
    cases isTypedef : new.isTypedef with
    | true =>
      rw [if_pos rfl]
      exact shown_of_defines old new (by rw [counts, isTypedef, wasUndefined]; rfl)
    | false =>
      rcases shown_of_defines_not old new (by rw [counts, isTypedef, Bool.false_and])
        with ⟨node, span⟩
      rw [if_neg Bool.false_ne_true]
      exact ⟨node.trans sameNode, span.trans sameSpan⟩

end Merge

/-! ## Declarations of a symbol -/

/-- The declarations of a symbol among the answers of a declaration. -/
def answered (id : SymbolId) (symbol : Symbol) : Except Refusal SymbolId → List Symbol
  | .ok found => if found = id then [symbol] else []
  | .error _ => []

/-- The declarations that a step adds to those of a symbol. -/
def Step.declares (table : Table) (id : SymbolId) : Step → List Symbol
  | .declare scope symbol =>
    match table.declare scope symbol with
    | .ok (_, answer) => answered id symbol answer
    | .error _ => []
  | .createScope .. => []

/-- The declarations of a symbol among some steps, in order: those that it was the answer to. -/
def declarationsOf (id : SymbolId) : Table → List Step → List Symbol
  | _, [] => []
  | table, step :: later => step.declares table id ++ declarationsOf id (step.apply table) later

/-- A step whose symbol, if it declares one, has itself as its only declaration. -/
def Step.IsSingle : Step → Prop
  | .declare _ symbol => symbol.declarations = [symbol.node]
  | .createScope .. => True

variable {table : Table} {declared : SymbolId → List Symbol}

/-- Every symbol of a table that may be declared several times knows of its declarations. -/
structure Records (table : Table) (declared : SymbolId → List Symbol) : Prop where
  absent : ∀ id, ¬ table.HasSymbol id → declared id = []
  represents : ∀ id symbol, table.symbol id = .ok symbol → symbol.kind.isRedeclarable = true →
    symbol.Represents (declared id)

/-- A table with the same symbols records the same declarations. -/
theorem Records.of_symbols (records : table.Records declared) {after : Table}
    {others : SymbolId → List Symbol} (symbols : ∀ id, after.symbol id = table.symbol id)
    (none : ∀ id, others id = []) : after.Records fun id => declared id ++ others id := by
  have there : ∀ id, table.HasSymbol id → after.HasSymbol id := fun id inside => by
    rcases symbol_of_hasSymbol inside with ⟨symbol, read⟩
    exact hasSymbol_of_symbol ((symbols id).trans read)
  refine ⟨fun id outside => ?_, fun id symbol read => ?_⟩
  · rw [none, List.append_nil]
    exact records.absent id (mt (there id) outside)
  · rw [none, List.append_nil]
    exact records.represents id symbol ((symbols id).symm.trans read)

/-- A node does not declare a symbol that it declares already. -/
theorem not_mem_of_declaredBy? {node : Tree.NodeId} {ids : List SymbolId}
    (unseen : table.declaredBy? node ids = .ok none) {id : SymbolId} (member : id ∈ ids)
    {symbol : Symbol} (read : table.symbol id = .ok symbol) : node ∉ symbol.declarations := by
  rcases declaredBy?_eq_none_iff.mp unseen id member with ⟨same, again, apart⟩
  cases read.symm.trans again
  exact apart

/-- A declaration is merged only with a symbol that its node does not declare yet. -/
theorem node_not_mem_of_declare {scope : ScopeId} {symbol old : Symbol} {after : Table}
    {id : SymbolId} (done : table.declare scope symbol = .ok (after, .ok id))
    (read : table.symbol id = .ok old) : symbol.node ∉ old.declarations := by
  rcases Outcome.of_bind done with ⟨verdict, given, follows⟩
  rcases Outcome.of_bind given with ⟨found, readScope, given⟩
  rcases Outcome.of_bind given with ⟨earlier, declared, given⟩
  cases earlier with
  | some previous =>
    cases given
    cases follows
  | none =>
    cases verdict with
    | fresh =>
      have inside : scope.index < table.scopes.size := hasScope_of_scope readScope
      simp only [addSymbol, if_pos inside] at follows
      cases follows
      exact absurd (hasSymbol_of_symbol read) (Nat.lt_irrefl _)
    | again other =>
      cases follows
      exact not_mem_of_declaredBy? declared (of_judge_again given).1 read
    | refused refusal => cases follows

/-- A new symbol is its own first declaration. -/
theorem Records.enter (records : table.Records declared) (scope : ScopeId) {symbol : Symbol}
    (single : symbol.declarations = [symbol.node]) :
    ((table.withSymbol symbol).modifyScope scope (·.bind symbol.name table.nextSymbol)).Records
      fun id => declared id ++ answered id symbol (.ok table.nextSymbol) := by
  have grown : ∀ id, table.HasSymbol id → (table.withSymbol symbol).HasSymbol id := fun id inside =>
    Nat.lt_of_lt_of_le inside (by simp [withSymbol])
  have entered : (table.withSymbol symbol).HasSymbol table.nextSymbol := by
    simp [HasSymbol, nextSymbol, withSymbol]
  have nothing : declared table.nextSymbol = [] := records.absent _ (Nat.lt_irrefl _)
  refine ⟨fun id outside => ?_, fun id other read redeclarable => ?_⟩
  · have older : table.nextSymbol ≠ id := by
      rintro rfl
      exact outside entered
    rw [records.absent id (mt (grown id) outside), answered, if_neg older, List.append_nil]
  · rw [symbol_modifyScope, symbol_withSymbol] at read
    split at read
    · next same =>
      cases read
      rw [same, nothing, answered, if_pos rfl, List.nil_append]
      exact .single single redeclarable
    · next older =>
      rw [answered, if_neg (Ne.symm older), List.append_nil]
      exact records.represents id other read redeclarable

/-- A symbol that is declared again has one more declaration. -/
theorem Records.merge (records : table.Records declared) {target : SymbolId} {old symbol : Symbol}
    (read : table.symbol target = .ok old) (merges : relation target old symbol = .merge)
    (unseen : symbol.node ∉ old.declarations) :
    (table.modifySymbol target (merged · symbol)).Records
      fun id => declared id ++ answered id symbol (.ok target) := by
  refine ⟨fun id outside => ?_, fun id other readOther redeclarable => ?_⟩
  · have apart : target ≠ id := by
      rintro rfl
      exact outside ((hasSymbol_modifySymbol ..).mpr (hasSymbol_of_symbol read))
    rw [answered, if_neg apart, List.append_nil]
    exact records.absent id (mt (hasSymbol_modifySymbol ..).mpr outside)
  · rw [symbol_modifySymbol] at readOther
    split at readOther
    · next same =>
      subst same
      rw [read] at readOther
      cases readOther
      have wasRedeclarable : old.kind.isRedeclarable = true :=
        (isRedeclarable_mergedKind old.kind symbol.kind).symm.trans redeclarable
      rw [answered, if_pos rfl]
      exact represents_merged (records.represents target old read wasRedeclarable)
        (merges_of_relation merges) wasRedeclarable unseen
    · next apart =>
      rw [answered, if_neg apart, List.append_nil]
      exact records.represents id other readOther redeclarable

/-- One step keeps the record of all declarations. -/
theorem Records.apply (records : table.Records declared) {step : Step} (single : step.IsSingle) :
    (step.apply table).Records fun id => declared id ++ step.declares table id := by
  cases step with
  | createScope region outer node =>
    exact records.of_symbols (table.symbol_createScope region outer node) fun _ => rfl
  | declare scope symbol =>
    unfold Step.apply Step.declares
    dsimp only
    cases done : table.declare scope symbol with
    | error fault => exact records.of_symbols (fun _ => rfl) fun _ => rfl
    | ok outcome =>
      rcases outcome with ⟨after, answer⟩
      cases declares_of_declare done with
      | fresh found read judged => exact records.enter scope single
      | again found id read judged =>
        rcases of_judge_again judged with ⟨-, old, readOld, merges⟩
        exact records.merge readOld merges (node_not_mem_of_declare done readOld)
      | refused found refusal read shared => exact records.of_symbols (fun _ => rfl) fun _ => rfl

theorem Records.applySteps (records : table.Records declared) {steps : List Step}
    (single : ∀ step ∈ steps, step.IsSingle) :
    (table.applySteps steps).Records fun id => declared id ++ declarationsOf id table steps := by
  induction steps generalizing table declared with
  | nil => exact records.of_symbols (fun _ => rfl) fun _ => rfl
  | cons first rest ih =>
    rcases List.forall_mem_cons.mp single with ⟨one, others⟩
    have later := ih (records.apply one) others
    simp only [List.append_assoc] at later
    exact later

theorem records_initial : initial.Records fun _ => [] := by
  refine ⟨fun _ _ => rfl, fun id symbol read => ?_⟩
  exact absurd (hasSymbol_of_symbol read) (Nat.not_lt_zero _)

/-- In every table that is put together by declarations and new scopes, a variable, a class, a
function or a template of either has the nodes of its declarations, in order and without
duplicates; at most one of them is a definition, the symbol is defined if one is, and that one is
shown.  Without a definition the last type definition that was merged is shown, and without any
the first declaration. -/
theorem represents_of_steps (steps : List Step) (single : ∀ step ∈ steps, step.IsSingle)
    (id : SymbolId) (symbol : Symbol) (read : (initial.applySteps steps).symbol id = .ok symbol)
    (redeclarable : symbol.kind.isRedeclarable = true) :
    symbol.Represents (declarationsOf id initial steps) :=
  (records_initial.applySteps single).represents id symbol read redeclarable

/-- The declarations of `struct X; typedef struct X X;`.  The name has one byte, `X`. -/
def typedefOfItself : List Step :=
  [.declare global
    (.ofDeclaration ⟨[0x81, 0x58]⟩ (.classType false) ⟨[0x81, 0x58]⟩ global 2 (some ⟨7, 1⟩)),
  .declare global
    (.ofDeclaration ⟨[0x81, 0x58]⟩ (.typedefName (some ⟨0⟩)) ⟨[0x81, 0x58]⟩ global 12
      (some ⟨27, 1⟩))]

/-- A class that has no definition is shown by the typedef that gives it its own name. -/
theorem represents_of_steps_typedef :
    (∀ step ∈ typedefOfItself, step.IsSingle) ∧
      ∃ symbol, (initial.applySteps typedefOfItself).symbol ⟨0⟩ = .ok symbol ∧
        symbol.kind.isRedeclarable = true ∧ symbol.isDefined = false ∧ symbol.node = 12 ∧
        symbol.Represents (declarationsOf ⟨0⟩ initial typedefOfItself) := by
  have single : ∀ step ∈ typedefOfItself, step.IsSingle := by
    intro step member
    rcases List.mem_pair.mp member with rfl | rfl <;> rfl
  have read : ∃ symbol, (initial.applySteps typedefOfItself).symbol ⟨0⟩ = .ok symbol ∧
      symbol.kind.isRedeclarable = true ∧ symbol.isDefined = false ∧ symbol.node = 12 := by
    refine ⟨_, rfl, ?_, ?_, ?_⟩ <;> rfl
  rcases read with ⟨symbol, read, redeclarable, undefined, node⟩
  exact ⟨single, symbol, read, redeclarable, undefined, node,
    represents_of_steps typedefOfItself single ⟨0⟩ symbol read redeclarable⟩

end Table
end CppNames
