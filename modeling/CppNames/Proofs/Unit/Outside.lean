import CppNames.Proofs.Binding.Forest
import CppNames.Proofs.Reference.Part
import CppNames.Proofs.Unit.Analyze

namespace CppNames

/-!
# What other source texts see

A report describes the symbols that are declared directly in a namespace or a class.  What lies
around that namespace or class is not looked at, so the members of a class that stands inside a
function are described as well.  There is no other way for the inside of a function into a report.
-/

open Binding Table

/-! ## Described symbols -/

theorem Outcome.mem_filterAuxM {α : Type} {test : α → Outcome Bool} {items found kept : List α}
    (ran : List.filterAuxM test items found = .ok kept) (item : α) :
    item ∈ kept ↔ item ∈ found ∨ item ∈ items ∧ test item = .ok true := by
  induction items generalizing found with
  | nil =>
    cases ran
    simp
  | cons first rest ih =>
    rcases Outcome.of_bind ran with ⟨passes, tested, ran⟩
    rw [ih ran]
    cases passes with
    | true => grind
    | false => grind

/-- Filtering with a test that may fail keeps the items that pass it. -/
theorem Outcome.mem_filterM {α : Type} {test : α → Outcome Bool} {items kept : List α}
    (ran : items.filterM test = .ok kept) (item : α) :
    item ∈ kept ↔ item ∈ items ∧ test item = .ok true := by
  rcases Outcome.of_bind ran with ⟨found, filtered, same⟩
  cases same
  rw [List.mem_reverse, Outcome.mem_filterAuxM filtered]
  simp

namespace Table

variable {table : Table}

theorem isDeclaredOutside_iff {id : SymbolId} : table.isDeclaredOutside id = .ok true ↔
    ∃ symbol, table.symbol id = .ok symbol ∧ table.HasMembers symbol.scope := by
  have members : ∀ {id : ScopeId} {scope : Scope}, table.scope id = .ok scope →
      ((scope.region.isNamespace || scope.region.isClass) = true ↔ table.HasMembers id) := by
    intro id scope read
    rw [Bool.or_eq_true, Region.isNamespace_iff, Region.isClass_iff]
    exact or_congr ⟨fun shape => ⟨scope, read, shape⟩, fun has => has.unique ⟨scope, read, rfl⟩ ▸ rfl⟩
      ⟨fun shape => ⟨scope, read, shape⟩, fun has => has.unique ⟨scope, read, rfl⟩ ▸ rfl⟩
  constructor
  · intro ran
    rcases Outcome.of_bind ran with ⟨symbol, readSymbol, ran⟩
    rcases Outcome.of_bind ran with ⟨scope, readScope, same⟩
    exact ⟨symbol, readSymbol, (members readScope).mp (Except.ok.inj same)⟩
  · rintro ⟨symbol, readSymbol, has⟩
    rcases scope_of_hasScope has.isOpen.hasScope with ⟨scope, readScope⟩
    unfold isDeclaredOutside
    rw [readSymbol]
    change (do let found ← table.scope symbol.scope; _) = _
    rw [readScope]
    exact congrArg Except.ok ((members readScope).mpr has)

theorem mem_symbolIds {id : SymbolId} (there : table.HasSymbol id) : id ∈ table.symbolIds :=
  List.mem_map.mpr ⟨id.index, List.mem_range.mpr there, rfl⟩

/-- The declarations of a table describe the symbols that are declared in a namespace or a
class. -/
theorem described_of_declarations {declared : List Declared}
    (ran : table.declarations = .ok declared) :
    ∃ ids : List SymbolId, ids.mapM table.declared = .ok declared ∧ ∀ id, id ∈ ids ↔
      ∃ symbol, table.symbol id = .ok symbol ∧ table.HasMembers symbol.scope := by
  rcases Outcome.of_bind ran with ⟨ids, filtered, described⟩
  refine ⟨ids, described, fun id => ?_⟩
  rw [Outcome.mem_filterM filtered id, isDeclaredOutside_iff]
  constructor
  · exact fun both => both.2
  · rintro ⟨symbol, read, has⟩
    exact ⟨mem_symbolIds (hasSymbol_of_symbol read), symbol, read, has⟩

end Table

/-! ## Symbols inside functions -/

/-- A node of a tree that stands inside a function and has a scope with members, or is a template. -/
def Tree.StandsInside (tree node : Node) : Prop :=
  (∃ around ∈ tree.preorder, node ∈ around.innerParts) ∧
    (node.isA .namespaceSpec = true ∨ node.isA .classSpec = true ∨ node.isA .templateDecl = true)

namespace Binding

variable {tree : Node} {pending : Option ScopeId} {table : Table}

/-- A namespace, a class or a template header inside a function is the scope of such a node. -/
theorem Formed.standsInside (formed : Formed (Setting.ofFirstPass tree) pending table)
    (distinct : (tree.preorder.map Tree.id).Nodup) {id : ScopeId}
    (stands : table.StandsInside (Setting.ofFirstPass tree).inner id) :
    ∃ node, tree.StandsInside node ∧ (node.id, id) ∈ table.nodeScopes := by
  rcases stands with ⟨⟨label, ⟨around, among, node, inside, rfl⟩, noted⟩, kind⟩
  have parts : Tree.parts [tree] = tree.preorder := List.append_nil _
  rw [parts] at among
  refine ⟨node, ⟨⟨around, among, inside⟩, ?_⟩, noted⟩
  have there : node ∈ Tree.parts [tree] := by
    rw [parts]
    exact ((Tree.preorder_sublist tree).1 around among).subset (Tree.innerParts_subset around inside)
  have spells : ∀ {construct : Construct}, Tree.contentOf [tree] node.id = construct →
      construct ≠ .cons → node.isA construct = true := by
    intro construct content marked
    rcases Tree.mem_of_contentOf content marked with ⟨part, member, same, is⟩
    rw [parts] at member there
    rwa [← List.inj_on_of_nodup_map distinct member there same]
  rcases formed.notes _ noted with ⟨shape, has, bears⟩
  have bears : (Tree.contentOf [tree] node.id).Bears node.id shape := bears
  have shapes : shape = .namespaceBody ∨ shape = .classBody ∨ ∃ label, shape = .header label := by
    rcases kind with (other | other) | ⟨label, other⟩
    · exact .inl (has.unique other)
    · exact .inr (.inl (has.unique other))
    · exact .inr (.inr ⟨label, has.unique other⟩)
  cases content : Tree.contentOf [tree] node.id with
  | namespaceSpec => exact .inl (spells content (by decide))
  | classSpec => exact .inr (.inl (spells content (by decide)))
  | templateDecl => exact .inr (.inr (spells content (by decide)))
  | _ =>
    rw [content] at bears
    rcases shapes with rfl | rfl | ⟨label, rfl⟩ <;> simp [Construct.Bears] at bears

/-- What leads from a namespace or a class to the scope of a function leads through a namespace,
a class or a template inside a function. -/
theorem Formed.standsInside_of_isLocal (formed : Formed (Setting.ofFirstPass tree) pending table)
    (distinct : (tree.preorder.map Tree.id).Nodup) {start last : ScopeId}
    (has : table.HasMembers start) (way : Relation.ReflTransGen table.Around start last)
    (isLocal : table.IsLocal last) :
    ∃ node scope, tree.StandsInside node ∧ (node.id, scope) ∈ table.nodeScopes ∧
      Relation.ReflTransGen table.Around start scope := by
  rcases (formed.housed rfl).standsInside_of_isLocal way (.members has) isLocal with
    ⟨scope, toScope, stands⟩
  rcases formed.standsInside distinct stands with ⟨node, inside, noted⟩
  exact ⟨node, scope, inside, noted, toScope⟩

end Binding

namespace Source

/-- The table behind an analysis is in form. -/
theorem formed_of_analyze (source : Source) (options : Options) :
    Reference.Gives (source.analyze options) fun analysis =>
      (analysis.tree.preorder.map Tree.id).Nodup ∧
        Formed (Setting.ofFirstPass analysis.tree) none analysis.table ∧
        analysis.table.declarations = .ok analysis.report.declarations := by
  refine .bind fun parsed same => ?_
  have distinct := nodup_ids_of_parse (ok_of_mapError same)
  have fresh := formed_fresh (Setting.ofFirstPass parsed.tree) rfl rfl options.searchBaseClasses
  dsimp only
  split
  · refine .bind fun result resolves => .bind fun declarations declares => .ok ⟨distinct, ?_, ?_⟩
    · have bound : Reference.Gives (source.resolved options parsed.tree) fun result =>
          Formed (Setting.ofFirstPass parsed.tree) none result.1 :=
        .bind fun _ _ => .bind fun _ _ => .ok (formed_bind fresh (suits_ofFirstPass distinct
          (Tree.coherent_of_nodup distinct) options.searchBaseClasses) _ _)
      exact bound result resolves
    · exact ok_of_mapError declares
  · refine .bind fun result plain => .bind fun declarations declares => .ok ⟨distinct, ?_, ?_⟩
    · cases plain
      exact fresh
    · exact ok_of_mapError declares

/-- The declarations in a report are those of the symbols that are declared directly in a namespace
or a class.  Where such a symbol lies inside a function, at whatever depth, its namespace or class
or one around it stands inside a function in the tree, or a template around it does.  So a text
without local classes and the like has none of the inside of its functions in its report. -/
theorem described_of_analyze (source : Source) (options : Options) :
    match source.analyze options with
    | .error _ => True
    | .ok analysis =>
      ∃ ids : List SymbolId,
        ids.mapM analysis.table.declared = .ok analysis.report.declarations ∧
        (∀ id, id ∈ ids ↔ ∃ symbol, analysis.table.symbol id = .ok symbol ∧
          analysis.table.HasMembers symbol.scope) ∧
        ∀ id ∈ ids, ∀ symbol, analysis.table.symbol id = .ok symbol →
          ∀ around, Relation.ReflTransGen analysis.table.Around symbol.scope around →
            analysis.table.IsLocal around →
            ∃ node scope, analysis.tree.StandsInside node ∧
              (node.id, scope) ∈ analysis.table.nodeScopes ∧
              Relation.ReflTransGen analysis.table.Around symbol.scope scope := by
  cases analyzed : source.analyze options with
  | error error => trivial
  | ok analysis =>
    rcases formed_of_analyze source options analysis analyzed with ⟨distinct, formed, declares⟩
    rcases described_of_declarations declares with ⟨ids, described, iff⟩
    refine ⟨ids, described, iff, ?_⟩
    intro id member symbol read around way isLocal
    rcases (iff id).mp member with ⟨found, readAgain, has⟩
    rw [read] at readAgain
    cases readAgain
    exact formed.standsInside_of_isLocal distinct has way isLocal

end Source

end CppNames
