import CppNames.Proofs.Binding.Native
import CppNames.Proofs.Encoding.Component
import CppNames.Proofs.Encoding.Render
import CppNames.Proofs.Lookup.Outward

namespace CppNames

/-!
# What a name means in front of `::`

In front of `::` a name stands for a class or a namespace, and whatever else shares the name is
passed over.  Two classifications have to agree for this.  The rules for declarations decide what
may stand beside a class, and the rules for hiding decide what a lookup in front of `::` does not
see.

They agree on all kinds but one.  A function template may stand beside a class, but it is not
counted among the values, and so it is seen.  Where the symbols of a name were all declared there,
this is the only thing that can keep the name from its scope.
-/

namespace SymbolKind

/-- Whether the symbol has members that a name in front of `::` leads to. -/
def hasMembers : SymbolKind → Bool
  | .classType _ | .classTemplate _ | .namespaceName => true
  | _ => false

/-- Whether the symbol is a function template. -/
def isFunctionTemplate : SymbolKind → Bool
  | .functionTemplate .. => true
  | _ => false

/-- Of what may stand beside a class or a namespace, exactly the function templates are no
values. -/
theorem isValue_of_standsBeside {left right : Symbol} (beside : left.StandsBeside right)
    (members : left.kind.hasMembers = true) :
    (!right.kind.isValue) = right.kind.isFunctionTemplate := by
  rcases left with ⟨_, leftKind, _⟩
  rcases right with ⟨_, rightKind, _⟩
  rcases beside with ⟨tagged, other⟩ | ⟨tagged, other⟩ | ⟨first, second, _⟩
  · cases rightKind <;> cases other <;> rfl
  -- a class beside a class, or a function that has members: there is no such thing
  · cases leftKind <;> cases members <;> cases other
  · cases leftKind <;> cases members <;> cases first

end SymbolKind

/-! ## Names that are only declared -/

/-- Whether a deed may put a symbol under a name of a scope without asking what is there. -/
def Deed.Imposes (scope : ScopeId) (name : Encoding) : Deed → Prop
  | .createScope .. | .declare .. => False
  | .addSymbol target symbol => target = scope ∧ symbol.name = name
  | .makeVisible target key _ => target = scope ∧ key = name
  | .bind pass => ∃ node ∈ pass.tree.preorder, Binding.usedName? node = some name

namespace Table

/-- The symbols of a name stand side by side, unless something was put there unasked. -/
def SharesDeclared (imposed : ScopeId → Encoding → Prop) (table : Table) : Prop :=
  ∀ id scope, table.scope id = .ok scope → ∀ name, ¬ imposed id name →
    table.StandBeside (scope.named name)

namespace SharesDeclared

variable {imposed : ScopeId → Encoding → Prop} {table after : Table}

theorem resembles_refl (symbol : Symbol) : symbol.Resembles symbol := ⟨rfl, rfl⟩

theorem standBeside_of_keeps (keeps : KeepsNames Symbol.Resembles table after)
    {ids : List SymbolId} (both : table.StandBeside ids) : after.StandBeside ids := by
  refine both.of_resembles (fun id inside => ?_) fun id symbol inside read => ?_
  · rcases symbol_of_hasSymbol inside with ⟨old, before⟩
    rcases keeps.symbols id old before with ⟨later, found, _⟩
    exact hasSymbol_of_symbol found
  · rcases symbol_of_hasSymbol inside with ⟨old, before⟩
    rcases keeps.symbols id old before with ⟨later, found, alike⟩
    cases read.symm.trans found
    exact ⟨old, before, alike⟩

/-- Where no name comes in and every symbol stays what it is, the symbols of a name stay side by
side. -/
theorem frame (keeps : KeepsNames Symbol.Resembles table after)
    (shares : table.SharesDeclared imposed) : after.SharesDeclared imposed := by
  intro id scope read name free
  rcases keeps.scopes id scope read with empty | ⟨old, before, same⟩
  · have nothing : scope.named name = [] := by simp [Scope.named, empty]
    exact nothing ▸ ⟨by simp, List.nodup_nil, .nil⟩
  · have named : scope.named name = old.named name := by simp only [Scope.named, same]
    exact named ▸ standBeside_of_keeps keeps (shares id old before name free)

/-- A symbol comes under a name where it stands beside those that are there, or where things come
unasked. -/
theorem enter (shares : table.SharesDeclared imposed) {target : ScopeId} {name : Encoding}
    {id : SymbolId} (beside : ∀ found, table.scope target = .ok found → ¬ imposed target name →
      table.StandBeside (Region.including (found.named name) id)) :
    (table.modifyScope target (·.bind name id)).SharesDeclared imposed := by
  intro other changed read key free
  suffices both : table.StandBeside (changed.named key) from
    ⟨both.there, both.distinct, both.beside⟩
  rcases of_scope_modifyScope read with ⟨old, before, rfl | ⟨rfl, rfl⟩⟩
  · exact shares other changed before key free
  · rw [Scope.named_bind]
    split
    · next same => exact same ▸ beside old before (same ▸ free)
    · exact shares target old before key free

/-- A symbol is declared beside those of its name. -/
theorem declare (shares : table.SharesDeclared imposed) {scope : ScopeId} {symbol : Symbol}
    {answer : Except Refusal SymbolId} (done : table.declare scope symbol = .ok (after, answer)) :
    after.SharesDeclared imposed := by
  cases declares_of_declare done with
  | fresh found read judged =>
    have grown := shares.frame (.withSymbol resembles_refl symbol)
    refine grown.enter fun again readAgain free => ?_
    cases read.symm.trans ((scope_withSymbol ..).symm.trans readAgain)
    have there := (shares scope found read symbol.name free).there
    have unused : table.nextSymbol ∉ found.named symbol.name := fun member =>
      ne_nextSymbol (there _ member) rfl
    rw [Region.including, if_neg unused]
    refine (grown scope found readAgain symbol.name free).concat unused
      ((symbol_withSymbol ..).trans (if_pos rfl)) fun id member old readOld => ?_
    rcases of_judge_fresh judged id member with ⟨same, reads, coexists⟩
    rw [symbol_withSymbol, if_neg (ne_nextSymbol (there id member)), reads] at readOld
    cases readOld
    exact standsBeside_of_relation coexists
  | again found id read judged =>
    exact frame (.modifySymbol id resembles_refl (resembles_merged · symbol)) shares
  | refused found refusal read shared => exact shares

theorem makeVisible (shares : table.SharesDeclared imposed) {target : ScopeId} {name : Encoding}
    (imposes : imposed target name) (id : SymbolId) :
    (table.modifyScope target (·.bind name id)).SharesDeclared imposed :=
  shares.enter fun _ _ free => absurd imposes free

theorem addSymbol (shares : table.SharesDeclared imposed) {scope : ScopeId} {symbol : Symbol}
    (imposes : imposed scope symbol.name) :
    (table.addSymbol scope symbol).1.SharesDeclared imposed := by
  have grown := shares.frame (.withSymbol resembles_refl symbol)
  unfold Table.addSymbol
  dsimp only
  split
  · exact grown.makeVisible imposes _
  · exact grown

/-- Binding puts symbols under a name unasked by using-declarations only. -/
theorem stable :
    Binding.Stable (Binding.MayUse fun key => ∀ scope, imposed scope key)
      (SharesDeclared imposed) := by
  refine .ofNames resembles_refl (fun _ _ => ⟨rfl, rfl⟩) frame (fun shares done =>
    shares.declare done) fun shares ⟨node, imposes, uses⟩ _ done => ?_
  rcases of_makeVisible done with ⟨_, _, rfl⟩
  exact shares.makeVisible (imposes _ uses _) _

theorem apply {bound : Bound} (shares : bound.table.SharesDeclared imposed) {deed : Deed}
    (imposes : ∀ scope name, deed.Imposes scope name → imposed scope name) :
    (deed.apply bound).table.SharesDeclared imposed := by
  cases deed with
  | createScope region outer node =>
    exact frame (.createScope resembles_refl region outer node) shares
  | declare scope symbol =>
    unfold Deed.apply
    dsimp only
    split
    · next after answer done => exact shares.declare done
    · exact shares
  | addSymbol scope symbol => exact shares.addSymbol (imposes _ _ ⟨rfl, rfl⟩)
  | makeVisible scope name id =>
    unfold Deed.apply
    dsimp only
    split
    · next after fresh done =>
      rcases of_makeVisible done with ⟨_, _, rfl⟩
      exact shares.makeVisible (imposes _ _ ⟨rfl, rfl⟩) id
    · exact shares
  | bind pass =>
    refine stable.bind (fun node member key names scope => ?_) pass.file pass.options shares
    exact imposes scope key ⟨node, member, names⟩

theorem afterDeeds {bound : Bound} (shares : bound.table.SharesDeclared imposed)
    {deeds : List Deed}
    (imposes : ∀ deed ∈ deeds, ∀ scope name, deed.Imposes scope name → imposed scope name) :
    (bound.afterDeeds deeds).table.SharesDeclared imposed := by
  induction deeds generalizing bound with
  | nil => exact shares
  | cons first rest ih =>
    rcases List.forall_mem_cons.mp imposes with ⟨one, others⟩
    exact ih (shares.apply one) others

theorem fresh (searchesBases : Bool) :
    (Bound.fresh searchesBases).table.SharesDeclared imposed := by
  intro id scope read name free
  rcases of_scope_initial searchesBases read with ⟨rfl, rfl⟩
  exact ⟨fun _ member => absurd member List.not_mem_nil, List.nodup_nil, .nil⟩

end SharesDeclared

/-! ## Looking a qualifier up -/

variable {table : Table} {scope : ScopeId} {found : Scope} {name : Encoding} {id : SymbolId}
  {symbol : Symbol} {ids : List SymbolId}

/-- The function templates among some symbols. -/
def functionTemplates (table : Table) (ids : List SymbolId) : List SymbolId :=
  ids.filter (table.passes (·.isFunctionTemplate))

/-- Where a class or a namespace stands beside others, a name in front of `::` sees it, and the
function templates. -/
theorem StandBeside.filter_scope (both : table.StandBeside ids) (member : id ∈ ids)
    (read : table.symbol id = .ok symbol) (members : symbol.kind.hasMembers = true) :
    (ids.filter (table.passes (!·.isValue))).Perm (id :: table.functionTemplates ids) := by
  have beside : ∀ other ∈ ids, other ≠ id → ∀ old, table.symbol other = .ok old →
      symbol.StandsBeside old := by
    intro other among differ old readOld
    have symm : Std.Symm fun first second => ∀ left right, table.symbol first = .ok left →
        table.symbol second = .ok right → left.StandsBeside right :=
      ⟨fun _ _ beside left right readLeft readRight => (beside right left readRight readLeft).symm⟩
    exact both.beside.forall member among differ.symm symbol old read readOld
  have own : table.passes (!·.isValue) id = true ∧
      table.passes (·.isFunctionTemplate) id = false := by
    unfold passes
    rw [read]
    dsimp only
    revert members
    cases symbol.kind <;>
      simp [SymbolKind.hasMembers, SymbolKind.isValue, SymbolKind.isFunctionTemplate]
  refine (List.perm_ext_iff_of_nodup (both.distinct.filter _) ?_).mpr fun other => ?_
  · refine List.nodup_cons.mpr ⟨fun among => ?_, both.distinct.filter _⟩
    exact absurd (List.mem_filter.mp among).2 (by rw [own.2]; exact Bool.false_ne_true)
  unfold functionTemplates
  rw [List.mem_cons, List.mem_filter, List.mem_filter]
  by_cases same : other = id
  · rw [same]
    exact ⟨fun _ => .inl rfl, fun _ => ⟨member, own.1⟩⟩
  · refine ⟨fun held => ?_, fun held => ?_⟩
    · rcases held with ⟨among, seen⟩
      refine .inr ⟨among, ?_⟩
      rcases symbol_of_hasSymbol (both.there other among) with ⟨old, readOld⟩
      have alike := SymbolKind.isValue_of_standsBeside (beside other among same old readOld) members
      unfold passes at seen ⊢
      rw [readOld] at seen ⊢
      exact alike.symm.trans seen
    · rcases held.resolve_left same with ⟨among, template⟩
      rcases symbol_of_hasSymbol (both.there other among) with ⟨old, readOld⟩
      have alike := SymbolKind.isValue_of_standsBeside (beside other among same old readOld) members
      refine ⟨among, ?_⟩
      unfold passes at template ⊢
      rw [readOld] at template ⊢
      exact alike.trans template

theorem aliased_of_hasMembers (read : table.symbol id = .ok symbol)
    (members : symbol.kind.hasMembers = true) : table.aliased id = .ok id := by
  unfold aliased
  cases table.symbols.size with
  | zero => rfl
  | succ steps =>
    unfold aliasedWithin
    rw [read, Outcome.ok_bind]
    revert members
    cases symbol.kind <;> simp [SymbolKind.hasMembers] <;> rfl

/-- Where a scope has a name itself, lookup goes no further. -/
theorem lookupUnqualified_own {context : LookupContext} {own : SymbolSet}
    (read : table.scope scope = .ok found) (finds : table.find scope name context = .ok own)
    (has : own.isEmpty = false) : table.lookupUnqualified scope name context = .ok own := by
  have bound : table.searchBound = table.searchBound - 1 + 1 :=
    (Nat.sub_add_cancel (Nat.mul_pos (Nat.succ_pos _) (Nat.succ_pos _))).symm
  rcases offered_own (table.searchBound - 1) scope found.region has [] with ⟨here, offers, rfl⟩
  unfold lookupUnqualified
  rw [bound, unqualifiedWithin_succ _ scope [] read finds, offers, Outcome.ok_bind,
    outwards_of_found _ found has, Outcome.ok_bind]
  rfl

/-- In front of `::` a name finds what is no value, where it belongs to a scope itself. -/
theorem StandBeside.lookupUnqualified_scope (both : table.StandBeside (found.named name))
    (read : table.scope scope = .ok found) {seen : List SymbolId}
    (same : (found.named name).filter (table.passes (!·.isValue)) = seen) (some : seen ≠ []) :
    table.lookupUnqualified scope name { scope := true } = .ok ⟨seen, false⟩ := by
  have finds : table.find scope name { scope := true } = .ok ⟨seen, false⟩ := by
    unfold Table.find
    rw [read, Outcome.ok_bind]
    dsimp only
    rw [visible_eq_filter both.there, ← same]
    rfl
  refine lookupUnqualified_own read finds ?_
  exact Bool.and_eq_false_imp.mpr fun empty => absurd (List.isEmpty_iff.mp empty) some

/-- What a name in front of `::` means, given the symbols that it finds in its scope. -/
theorem scopeOf_of_hasMembers {templates : List SymbolId} {shown : String} {component : Encoding}
    (read : table.symbol id = .ok symbol) (members : symbol.kind.hasMembers = true)
    (text : component.shown = .ok shown) (seen : ids.Perm (id :: templates)) :
    table.scopeOf ⟨ids, false⟩ component = .ok
      (if templates = [] then
        symbol.defines.elim (.error (.notScope shown)) fun inner => .ok (some inner)
      else .error (.ambiguous shown ids)) := by
  unfold scopeOf
  rw [text, Outcome.ok_bind]
  cases templates with
  | nil =>
    rw [List.perm_singleton.mp seen]
    dsimp only
    unfold scopeOfSymbol
    rw [aliased_of_hasMembers read members, Outcome.ok_bind, read, Outcome.ok_bind]
    revert members
    cases symbol.kind <;> simp [SymbolKind.hasMembers] <;> cases symbol.defines <;> rfl
  | cons template rest =>
    have several := seen.length_eq
    match ids, several with
    | first :: second :: others, _ => rfl

end Table

namespace Encoding

/-- A simple name is no global scope, and is its own key and its own last component. -/
theorem lookupKey_simpleName (text : String) :
    (simpleName text).lookupKey = .ok (simpleName text) ∧
      (simpleName text).lastComponent = .ok (simpleName text) := by
  have plain : (simpleName text).isTemplateId = false := beginsWith_counted _ (by decide)
  have single : (simpleName text).isQualified = false := beginsWith_counted _ (by decide)
  unfold lookupKey lastComponent templateName lastName
  rw [plain, single]
  exact ⟨rfl, rfl⟩

theorem isGlobalScope_simpleName {text : String} (named : text ≠ "") :
    (simpleName text).isGlobalScope = false := by
  refine beq_eq_false_iff_ne.mpr fun same => named (utf8Bytes_inj.mp ?_)
  have none : (utf8Bytes text).take limit = [] := (List.cons.inj (congrArg bytes same)).2
  have empty : utf8Bytes "" = [] := toList_loop "".toByteArray 0 []
  rw [empty]
  exact (List.take_eq_nil_iff.mp none).resolve_left (by decide)

theorem exists_shown_simpleName (text : String) :
    ∃ shown, (simpleName text).shown = .ok shown := by
  rcases readable_concat (List.forall_mem_singleton.mpr (Complete.simpleName text)) with
    ⟨texts, _, reads⟩
  have alone : concat [simpleName text] = simpleName text :=
    congrArg Encoding.mk (List.append_nil _)
  refine ⟨String.join texts, ?_⟩
  unfold shown
  rw [← alone, reads]
  rfl

end Encoding

open Encoding (simpleName)

/-- A name in front of `::` that belongs to one class, class template or namespace of the scope it
is looked up from leads to the scope of that symbol, whatever variables, constants, enumerators
and functions share the name.  The only exception are function templates: with one of them beside
the symbol the name is ambiguous.  The table may be the work of any declarations, new scopes and
passes, as long as nothing else was put under the name. -/
theorem lookupScope_of_deeds (deeds : List Deed) (searchesBases : Bool) {table : Table}
    (made : ((Bound.fresh searchesBases).afterDeeds deeds).table = table) {scope : ScopeId}
    {found : Scope} (read : table.scope scope = .ok found) {text : String} (named : text ≠ "")
    (declared : ∀ deed ∈ deeds, ¬ deed.Imposes scope (simpleName text)) {id : SymbolId}
    (only : (found.named (simpleName text)).filter (table.passes (·.hasMembers)) = [id]) :
    ∃ symbol shown candidates, table.symbol id = .ok symbol ∧
      (simpleName text).shown = .ok shown ∧
      candidates.Perm (id :: table.functionTemplates (found.named (simpleName text))) ∧
      table.lookupScope (simpleName text) scope = .ok
        (if table.functionTemplates (found.named (simpleName text)) = [] then
          symbol.defines.elim (.error (.notScope shown)) fun inner => .ok (some inner)
        else .error (.ambiguous shown candidates)) := by
  have shares : table.SharesDeclared fun scope name => ∃ deed ∈ deeds, deed.Imposes scope name :=
    made ▸ (Table.SharesDeclared.fresh searchesBases).afterDeeds fun deed member _ _ imposes =>
      ⟨deed, member, imposes⟩
  have both := shares scope found read (simpleName text) fun ⟨deed, member, imposes⟩ =>
    declared deed member imposes
  have among : id ∈ (found.named (simpleName text)).filter (table.passes (·.hasMembers)) :=
    only ▸ List.mem_singleton_self id
  rcases List.mem_filter.mp among with ⟨member, passes⟩
  rcases Table.symbol_of_hasSymbol (both.there id member) with ⟨symbol, readSymbol⟩
  have members : symbol.kind.hasMembers = true := by
    unfold Table.passes at passes
    rw [readSymbol] at passes
    exact passes
  have seen := both.filter_scope member readSymbol members
  have finds := both.lookupUnqualified_scope read rfl fun none => by
    rw [none] at seen
    exact absurd seen.length_eq (by simp)
  rcases Encoding.exists_shown_simpleName text with ⟨shown, texted⟩
  rcases Encoding.lookupKey_simpleName text with ⟨key, last⟩
  have noGlobal := Encoding.isGlobalScope_simpleName named
  have single := (Encoding.IsComponent.simpleName text).isQualified_eq
  refine ⟨symbol, shown, _, readSymbol, texted, seen, ?_⟩
  unfold Table.lookupScope Table.lookup
  rw [noGlobal, single, if_neg Bool.false_ne_true, if_neg Bool.false_ne_true, key,
    Outcome.ok_bind, finds]
  simp only [Outcome.ok_bind, last]
  exact Table.scopeOf_of_hasMembers readSymbol members texted seen

/-- What `struct X {}; template <class T> void X();` puts into a table. -/
def classBesideTemplate : List Deed :=
  [.createScope (.classBody (simpleName "X") 2 []) (some Table.global) (some 2),
  .declare Table.global { Symbol.ofDeclaration (simpleName "X") (.classType true) (simpleName "X")
    Table.global 2 none with defines := some ⟨1⟩ },
  .declare Table.global (.ofDeclaration (simpleName "X") (.functionTemplate ⟨0, 0, false⟩ false)
    (.function [] false (.builtin 'v')) Table.global 13 none)]

/-- A function template makes the name of a class ambiguous in front of `::`. -/
theorem lookupScope_of_deeds_template :
    ∃ shown candidates, candidates.Perm [⟨0⟩, ⟨1⟩] ∧
      ((Bound.fresh true).afterDeeds classBesideTemplate).table.lookupScope (simpleName "X")
        Table.global = .ok (.error (.ambiguous shown candidates)) := by
  have shares : (((Bound.fresh true).afterDeeds classBesideTemplate).table.scope
      Table.global).toOption.any fun found =>
        found.named (simpleName "X") == [⟨0⟩, ⟨1⟩] &&
          [⟨0⟩, ⟨1⟩].filter (((Bound.fresh true).afterDeeds classBesideTemplate).table.passes
            (·.hasMembers)) == [⟨0⟩] &&
          ((Bound.fresh true).afterDeeds classBesideTemplate).table.functionTemplates
            [⟨0⟩, ⟨1⟩] == [⟨1⟩] := by
    decide +kernel
  generalize made : ((Bound.fresh true).afterDeeds classBesideTemplate).table = table at shares ⊢
  cases read : table.scope Table.global with
  | error fault => rw [read] at shares; cases shares
  | ok found =>
    rw [read] at shares
    simp only [Except.toOption, Option.any_some, Bool.and_eq_true, beq_iff_eq] at shares
    rcases shares with ⟨⟨named, members⟩, templates⟩
    rcases lookupScope_of_deeds classBesideTemplate true made read (by decide)
        (by simp [classBesideTemplate, Deed.Imposes]) (named ▸ members) with
      ⟨symbol, shown, candidates, _, _, both, means⟩
    rw [named, templates] at both means
    exact ⟨shown, candidates, both, means⟩

end CppNames
