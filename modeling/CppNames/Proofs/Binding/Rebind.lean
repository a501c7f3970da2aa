import CppNames.Proofs.Binding.EchoDeclaration
import CppNames.Proofs.Binding.Forest

namespace CppNames

/-!
# A tree that is bound twice

A first pass over a parse tree may report nothing.  A second pass into the same table then reports
what the first one declared, and declares nothing itself.  There are three kinds of nodes of which
this is not true.  An enumeration or a class without a body declares what is not visible yet, and
the second pass may see more, or less, than the first.  A qualified name may lead elsewhere.  And a
using-declaration makes visible whatever it finds.

Whatever the first pass reports, the second one finds every scope again and notes it where the first
one noted it.
-/

open Table

/-- The symbols that a scope shows under a name, in order.  What is not there shows none. -/
def Table.shownUnder (table : Table) (scope : ScopeId) (name : Encoding) : List SymbolId :=
  match table.scope scope with
  | .ok found => found.named name
  | .error _ => []

namespace Binding

variable {tree : Node} {file : String} {options : BindOptions} {bound : Bound} {log : Log}

theorem Shows.iff_mem_shownUnder {table : Table} {scope : ScopeId} {name : Encoding}
    {id : SymbolId} : Shows table scope name id ↔ id ∈ table.shownUnder scope name := by
  unfold Shows Table.shownUnder
  cases table.scope scope with
  | ok found => simp
  | error fault => simp

theorem shownUnder_of_consistent {table : Table} (consistent : table.Consistent) (scope : ScopeId)
    (name : Encoding) : (table.shownUnder scope name).Nodup ∧
      ∀ id ∈ table.shownUnder scope name, table.HasSymbol id := by
  unfold Table.shownUnder
  cases read : table.scope scope with
  | error fault => exact ⟨List.nodup_nil, fun _ member => absurd member List.not_mem_nil⟩
  | ok found =>
    dsimp only
    unfold Scope.named
    cases there : found.bindings.find? (·.name == name) with
    | none => exact ⟨List.nodup_nil, fun _ member => absurd member List.not_mem_nil⟩
    | some binding =>
      exact (consistent.scopes scope found read).symbols binding (List.mem_of_find?_eq_some there)

theorem prefix_shownUnder {before after : Table} (grows : before.Grows after) (scope : ScopeId)
    (name : Encoding) : before.shownUnder scope name <+: after.shownUnder scope name := by
  unfold Table.shownUnder
  cases read : before.scope scope with
  | error fault => exact List.nil_prefix
  | ok found =>
    rcases grows.scope scope found read with ⟨later, readLater, _, names⟩
    rw [readLater]
    exact names name

/-- A pass that comes to its end. -/
theorem ok_of_pass (ends : (CppNames.bind file options tree bound).2 = .ok log) :
    ∃ state, bindTree tree ⟨file, options, global⟩ ⟨bound.table, bound.annotations, none, []⟩ =
      .ok () state ∧ (CppNames.bind file options tree bound).1 = ⟨state.table, state.annotations⟩ ∧
      state.log = log := by
  unfold CppNames.bind at ends ⊢
  dsimp only at ends ⊢
  cases result : bindTree tree ⟨file, options, global⟩ ⟨bound.table, bound.annotations, none, []⟩ with
  | error error state =>
    rw [result] at ends
    cases ends
  | ok value state =>
    rw [result] at ends
    cases ends
    exact ⟨state, rfl, rfl, rfl⟩

/-- What is known of a tree. -/
def Rebinding.ofTree (tree : Node) : Rebinding where
  content := Tree.contentOf [tree]
  aliasing := ∃ part ∈ tree.preorder, part.isA .usingDeclaration = true
  settled := {label | ∀ part ∈ tree.preorder, part.id = label → part.isUnsettled = false}

theorem suitsTwice_ofTree (distinct : (tree.preorder.map Tree.id).Nodup) :
    SuitsTwice (.ofTree tree) tree.preorder where
  spells _ member _ spells := (Tree.coherent_of_nodup distinct).spells
    ((Tree.preorder_sublist_of_mem (List.mem_singleton_self tree)).subset member) spells
  aliasing part member is := ⟨part, member, is⟩
  unsettled part member unsettled settled := by
    rw [settled part member rfl] at unsettled
    cases unsettled
  distinct := distinct

/-- What a second pass over a tree makes of what the first pass left and reported. -/
structure Rebound (tree : Node) (report : Log) (first : Bound) (last : State) : Prop where
  consistent : last.table.Consistent
  evolves : Evolves ((Rebinding.ofTree tree).setting
    ((Rebinding.ofTree tree).free (report = []) (usesOf tree.preorder))) first.table last.table
  annotated : last.annotations = first.annotations ++ first.annotations
  declared : ∀ id, first.table.HasSymbol id →
    ∃ part ∈ tree.preorder, part.id ∈ declarers first.table id
  reported : report = [] → ∀ label ∈ (Rebinding.ofTree tree).settled, ∀ id,
    label ∈ declarers first.table id → Remarked first.table last id

theorem not_mem_declarers_fresh (searchesBases : Bool) (label : Tree.NodeId) (id : SymbolId) :
    label ∉ declarers (Bound.fresh searchesBases).table id := by
  have absent : ¬ (Bound.fresh searchesBases).table.HasSymbol id := Nat.not_lt_zero id.index
  rw [declarers_of_not_hasSymbol absent]
  exact List.not_mem_nil

/-- Behind a pass over a fresh table. -/
theorem rebound_of_bind (distinct : (tree.preorder.map Tree.id).Nodup) {searchesBases : Bool}
    {first : Bound} {report : Log}
    (once : CppNames.bind file options tree (.fresh searchesBases) = (first, .ok report))
    (again : (CppNames.bind file options tree first).2 = .ok log) :
    ∃ last : State,
      (CppNames.bind file options tree first).1 = ⟨last.table, last.annotations⟩ ∧ last.log = log ∧
      Rebound tree report first last := by
  have undeclared := not_mem_declarers_fresh searchesBases
  have ready : Ready ((Rebinding.ofTree tree).setting ∅) ⟨file, options, global⟩
      (Bound.fresh searchesBases).table none :=
    (formed_fresh _ rfl rfl searchesBases).ready file options
  have recurs := recurs_bindTree ready (suitsTwice_ofTree distinct)
  have ends : (CppNames.bind file options tree (.fresh searchesBases)).2 = .ok report := by
    rw [once]
  rcases ok_of_pass ends with ⟨early, ran, left, rfl⟩
  rcases ok_of_pass again with ⟨last, ranAgain, leftAgain, rfl⟩
  rw [once] at left
  obtain rfl : first = ⟨early.table, early.annotations⟩ := left
  rcases recurs.keeps.ends rfl rfl ran with ⟨readyEarly, evolves, header, _, _⟩
  have begins : Ready ((Rebinding.ofTree tree).setting ∅) ⟨file, options, global⟩
      (⟨early.table, early.annotations, none, []⟩ : State).table none := by
    rw [header.elim id id] at readyEarly
    exact readyEarly.allowing ∅
  rcases recurs.echo rfl rfl ran (fun label _ => undeclared label) begins rfl trivial
    ⟨.refl _, fun _ _ => rfl, fun _ _ _ => id⟩ ranAgain with ⟨there, _, echoed, _⟩
  refine ⟨last, leftAgain, rfl, there.formed.consistent, echoed.evolves, ?_, ?_, ?_⟩
  · rcases echoed.annotated with ⟨added, same, sameAgain⟩
    -- nothing was noted before the first pass
    obtain rfl : early.annotations = added := same.trans (List.append_nil added)
    exact sameAgain
  · intro id has
    rcases evolves.entered id has with early | declared
    · exact absurd early (Nat.not_lt_zero id.index)
    rcases List.exists_mem_of_ne_nil _ declared with ⟨label, member⟩
    have used := (evolves.mem_declarers member).resolve_left (undeclared label id)
    rcases List.mem_map.mp used with ⟨part, among, same⟩
    have same : part.id = label := same
    exact ⟨part, among, same ▸ member⟩
  · intro silent label settled id declares
    exact (echoed.reported silent label settled id declares).resolve_left (undeclared label id)

namespace Rebound

variable {report : Log} {first : Bound} {last : State}

/-- The second pass makes no scopes. -/
theorem scopes_size (rebound : Rebound tree report first last) :
    last.table.scopes.size = first.table.scopes.size := by
  have old : ∀ id, last.table.HasScope id → first.table.HasScope id := fun id has =>
    (rebound.evolves.scopes id has).resolve_right (Rebinding.noted_free _ _ _)
  have kept : ∀ id, first.table.HasScope id → last.table.HasScope id :=
    fun _ => rebound.evolves.grows.hasScope
  exact Nat.le_antisymm (Nat.le_of_not_lt fun more => Nat.lt_irrefl _ (old ⟨_⟩ more))
    (Nat.le_of_not_lt fun more => Nat.lt_irrefl _ (kept ⟨_⟩ more))

theorem scopeOfNode?_eq (rebound : Rebound tree report first last) (label : Tree.NodeId) :
    last.table.scopeOfNode? label = first.table.scopeOfNode? label :=
  rebound.evolves.notes label fun noted => Rebinding.noted_free _ _ _ ⟨label, noted⟩

/-- The first note on a node counts, and that is one of the second pass, or the same of the first. -/
theorem scope?_eq (rebound : Rebound tree report first last) (part : Node) :
    last.annotations.scope? part = first.annotations.scope? part := by
  unfold Annotations.scope?
  rw [rebound.annotated]
  simp only [List.find?_append, Option.or_self]

/-- What is declared anew is declared by a node of which it depends on what is visible what it
declares. -/
theorem unsettled (rebound : Rebound tree [] first last) {id : SymbolId} {label : Tree.NodeId}
    (declares : label ∈ declarers last.table id) (new : label ∉ declarers first.table id) :
    ∃ part ∈ tree.preorder, part.isUnsettled = true ∧ part.id = label := by
  have isFree := (rebound.evolves.mem_declarers declares).resolve_left new
  by_contra absent
  refine Rebinding.unsettled_of_free isFree rfl fun part member same => ?_
  by_contra other
  exact absent ⟨part, member, Bool.eq_true_of_not_eq_false other, same⟩

theorem entered (rebound : Rebound tree [] first last) {id : SymbolId}
    (has : last.table.HasSymbol id) : first.table.HasSymbol id ∨
      ∃ part ∈ tree.preorder, part.isUnsettled = true ∧ part.id ∈ declarers last.table id := by
  by_cases before : first.table.HasSymbol id
  · exact .inl before
  have declared := (rebound.evolves.entered id has).resolve_left before
  rcases List.exists_mem_of_ne_nil _ declared with ⟨label, declares⟩
  have new : label ∉ declarers first.table id := by
    rw [declarers_of_not_hasSymbol before]
    exact List.not_mem_nil
  rcases rebound.unsettled declares new with ⟨part, member, unsettled, rfl⟩
  exact .inr ⟨part, member, unsettled, declares⟩

section

variable (settled : ∀ part ∈ tree.preorder, part.isUnsettled = false)

include settled

theorem hasSymbol_iff (rebound : Rebound tree [] first last) (id : SymbolId) :
    last.table.HasSymbol id ↔ first.table.HasSymbol id := by
  refine ⟨fun has => ?_, rebound.evolves.grows.hasSymbol⟩
  rcases rebound.entered has with old | ⟨part, member, unsettled, _⟩
  · exact old
  · rw [settled part member] at unsettled
    cases unsettled

theorem size_eq (rebound : Rebound tree [] first last) :
    last.table.symbols.size = first.table.symbols.size := by
  have same := fun index => rebound.hasSymbol_iff settled ⟨index⟩
  exact Nat.le_antisymm (Nat.le_of_not_lt fun more => Nat.lt_irrefl _ ((same _).mp more))
    (Nat.le_of_not_lt fun more => Nat.lt_irrefl _ ((same _).mpr more))

theorem declarers_eq (rebound : Rebound tree [] first last) (id : SymbolId) :
    declarers last.table id = declarers first.table id := by
  rcases rebound.evolves.declared id with ⟨added, same, allowed⟩
  cases added with
  | nil => rw [same, List.append_nil]
  | cons label rest =>
    have isFree := allowed label (List.mem_cons_self ..)
    exact absurd (fun part member _ => settled part member) (Rebinding.unsettled_of_free isFree rfl)

/-- A scope shows nothing else than before, unless there are using-declarations. -/
theorem shownUnder_eq (rebound : Rebound tree [] first last)
    (plain : ∀ part ∈ tree.preorder, part.isA .usingDeclaration = false) (scope : ScopeId)
    (name : Encoding) : last.table.shownUnder scope name = first.table.shownUnder scope name := by
  have before := prefix_shownUnder rebound.evolves.grows scope name
  have consistent := shownUnder_of_consistent rebound.consistent scope name
  have within : last.table.shownUnder scope name ⊆ first.table.shownUnder scope name := by
    intro id member
    have shows := Shows.iff_mem_shownUnder.mpr member
    rcases rebound.evolves.shown scope name id shows with old | absent | ⟨part, among, is⟩
    · exact Shows.iff_mem_shownUnder.mp old
    · exact absurd ((rebound.hasSymbol_iff settled id).mp (consistent.2 id member)) absent
    · rw [plain part among] at is
      cases is
  have few := (consistent.1.subperm within).length_le
  exact (before.eq_of_length_le few).symm

end

theorem remarked (rebound : Rebound tree [] first last) (distinct : (tree.preorder.map Tree.id).Nodup)
    {part : Node} (member : part ∈ tree.preorder) (settled : part.isUnsettled = false)
    {id : SymbolId} (declares : part.id ∈ declarers first.table id) : Remarked first.table last id := by
  refine rebound.reported rfl part.id (fun other among same => ?_) id declares
  rw [List.inj_on_of_nodup_map distinct among member same]
  exact settled

end Rebound

/-- A report names a symbol as it was, or as it has become. -/
theorem Remarked.exists_remarks {first : Table} {last : State} {id : SymbolId} {symbol : Symbol}
    (remarked : Remarked first last id) (read : first.symbol id = .ok symbol) :
    ∃ made ∈ last.log, ∃ previous, symbol.GrowsInto previous ∧ Remarks made previous := by
  rcases remarked with ⟨made, member, between, previous, before, _, readBetween, remarks⟩
  rcases before.symbol id symbol read with ⟨later, readLater, grows⟩
  obtain rfl : later = previous := Except.ok.inj (readLater.symm.trans readBetween)
  exact ⟨made, member, later, grows, remarks⟩

/-- A report names the place of a symbol that is declared by the same nodes in the end. -/
theorem Remarked.remarks {first : Table} {last : State} {id : SymbolId} {symbol : Symbol}
    (remarked : Remarked first last id) (read : first.symbol id = .ok symbol)
    (same : declarers last.table id = declarers first id) : ∃ made ∈ last.log, Remarks made symbol := by
  rcases remarked with ⟨made, member, between, previous, before, behind, readBetween, remarks⟩
  rcases before.symbol id symbol read with ⟨later, readLater, grows⟩
  obtain rfl : later = previous := Except.ok.inj (readLater.symm.trans readBetween)
  rcases behind.symbol id later readBetween with ⟨final, readFinal, growsOn⟩
  rw [declarers_of_symbol readFinal, declarers_of_symbol read] at same
  have place := grows.place (grows.declarations.eq_of_length_le
    (same ▸ growsOn.declarations.length_le)).symm
  refine ⟨made, member, ?_⟩
  unfold Remarks at remarks ⊢
  rw [← place]
  exact remarks

end Binding

open Binding

/-- A pass over a parse tree into a fresh table may report nothing, and the pass behind it may come
to its end.  Then whatever was declared by a node that declares the same whatever is visible, the
second pass reports it.  All that is new is declared by other nodes.  Without such nodes there are
no more symbols than before, and every one is reported.  Without using-declarations also every scope
shows what it showed. -/
theorem reports_of_rebind (file source : String) (parsing : ParseOptions) (name : String)
    (options : BindOptions) (searchesBases : Bool) :
    match parse file source parsing with
    | .error _ => True
    | .ok parsed =>
      ∀ (first : Bound) (log : Log),
        bind name options parsed.tree (.fresh searchesBases) = (first, .ok []) →
        (bind name options parsed.tree first).2 = .ok log →
        let second := (bind name options parsed.tree first).1
        (∀ part ∈ parsed.tree.preorder, part.isUnsettled = false →
          ∀ id symbol, first.table.symbol id = .ok symbol → part.id ∈ symbol.declarations →
            ∃ made ∈ log, ∃ previous, symbol.GrowsInto previous ∧ Remarks made previous) ∧
        (∀ id, second.table.HasSymbol id → first.table.HasSymbol id ∨
          ∃ part ∈ parsed.tree.preorder, part.isUnsettled = true ∧
            part.id ∈ declarers second.table id) ∧
        ((∀ part ∈ parsed.tree.preorder, part.isUnsettled = false) →
          second.table.symbols.size = first.table.symbols.size ∧
          (∀ id symbol, first.table.symbol id = .ok symbol → ∃ made ∈ log, Remarks made symbol) ∧
          ((∀ part ∈ parsed.tree.preorder, part.isA .usingDeclaration = false) →
            ∀ scope name,
              second.table.shownUnder scope name = first.table.shownUnder scope name)) := by
  split
  · trivial
  next parsed parses =>
  intro first log once again
  have distinct := nodup_ids_of_parse parses
  rcases rebound_of_bind distinct once again with ⟨last, same, rfl, rebound⟩
  dsimp only
  rw [same]
  refine ⟨?_, fun id has => rebound.entered has, fun settled => ⟨rebound.size_eq settled, ?_,
    rebound.shownUnder_eq settled⟩⟩
  · intro part member settled id symbol read declares
    rw [← declarers_of_symbol read] at declares
    exact (rebound.remarked distinct member settled declares).exists_remarks read
  · intro id symbol read
    rcases rebound.declared id (hasSymbol_of_symbol read) with ⟨part, member, declares⟩
    exact (rebound.remarked distinct member (settled part member) declares).remarks read
      (rebound.declarers_eq settled id)

/-- The theorem for a variable in a namespace. -/
theorem reports_of_rebind_variable : ∃ parsed first log,
    parse "a.cc" "namespace N { int x; }" {} = .ok parsed ∧
      bind "a.cc" {} parsed.tree (.fresh true) = (first, .ok []) ∧
      (bind "a.cc" {} parsed.tree first).2 = .ok log ∧ first.table.symbols.size = 2 ∧
      (bind "a.cc" {} parsed.tree first).1.table.symbols.size = 2 ∧
      ∀ id symbol, first.table.symbol id = .ok symbol → ∃ made ∈ log, Remarks made symbol := by
  have settled : (parse "a.cc" "namespace N { int x; }" {}).toOption.map
      (fun parsed => parsed.tree.preorder.all (!·.isUnsettled)) = some true := by decide +kernel
  have passes : (parse "a.cc" "namespace N { int x; }" {}).toOption.map
      (fun parsed =>
        let first := bind "a.cc" {} parsed.tree (.fresh true)
        (first.2.toOption.map List.length, first.1.table.symbols.size,
          (bind "a.cc" {} parsed.tree first.1).2.toOption.map List.length)) =
        some (some 0, 2, some 2) := by decide +kernel
  have theorems := reports_of_rebind "a.cc" "namespace N { int x; }" {} "a.cc" {} true
  cases parses : parse "a.cc" "namespace N { int x; }" {} with
  | error stop => rw [parses] at passes; cases passes
  | ok parsed =>
    rw [parses] at settled passes theorems
    have settled : ∀ part ∈ parsed.tree.preorder, part.isUnsettled = false := by
      simpa using Option.some.inj settled
    have passes := Option.some.inj passes
    dsimp only at passes theorems
    rcases once : bind "a.cc" {} parsed.tree (.fresh true) with ⟨first, report⟩
    rw [once] at passes
    cases again : (bind "a.cc" {} parsed.tree first).2 with
    | error stop => rw [again] at passes; cases (Prod.mk.inj (Prod.mk.inj passes).2).2
    | ok log =>
      have size : first.table.symbols.size = 2 := (Prod.mk.inj (Prod.mk.inj passes).2).1
      obtain rfl : report = .ok [] := by
        cases report with
        | error stop => cases (Prod.mk.inj passes).1
        | ok noted => rw [List.length_eq_zero_iff.mp (Option.some.inj (Prod.mk.inj passes).1)]
      rcases (theorems first log once again).2.2 settled with ⟨same, reported, _⟩
      exact ⟨parsed, first, log, rfl, once, again, size, same.trans size, reported⟩

/-- Two passes over a parse tree into a fresh table may come to their end, whatever they report.
Then the second one makes no scopes, and the scope of every node is the one that it has behind the
first: the one that is found again for its number, and the one that is noted on it. -/
theorem scopes_of_rebind (file source : String) (parsing : ParseOptions) (name : String)
    (options : BindOptions) (searchesBases : Bool) :
    match parse file source parsing with
    | .error _ => True
    | .ok parsed =>
      ∀ (first : Bound) (report log : Log),
        bind name options parsed.tree (.fresh searchesBases) = (first, .ok report) →
        (bind name options parsed.tree first).2 = .ok log →
        let second := (bind name options parsed.tree first).1
        second.table.scopes.size = first.table.scopes.size ∧
        (∀ label, second.table.scopeOfNode? label = first.table.scopeOfNode? label) ∧
        ∀ part : Node, second.annotations.scope? part = first.annotations.scope? part := by
  split
  · trivial
  next parsed parses =>
  intro first report log once again
  rcases rebound_of_bind (nodup_ids_of_parse parses) once again with ⟨last, same, -, rebound⟩
  dsimp only
  rw [same]
  exact ⟨rebound.scopes_size, rebound.scopeOfNode?_eq, rebound.scope?_eq⟩

/-- The theorem for a function in a namespace, and a class whose name is taken.  Both passes report
something. -/
theorem scopes_of_rebind_takenName : ∃ parsed first report log,
    parse "a.cc" "namespace N { void f() { } } struct N { };" {} = .ok parsed ∧
      bind "a.cc" {} parsed.tree (.fresh true) = (first, .ok report) ∧ report.length = 1 ∧
      (bind "a.cc" {} parsed.tree first).2 = .ok log ∧ log.length = 3 ∧
      first.table.scopes.size = 5 ∧
      (bind "a.cc" {} parsed.tree first).1.table.scopes.size = 5 ∧
      ∀ part : Node, (bind "a.cc" {} parsed.tree first).1.annotations.scope? part =
        first.annotations.scope? part := by
  have passes : (parse "a.cc" "namespace N { void f() { } } struct N { };" {}).toOption.map
      (fun parsed =>
        let first := bind "a.cc" {} parsed.tree (.fresh true)
        (first.2.toOption.map List.length, first.1.table.scopes.size,
          (bind "a.cc" {} parsed.tree first.1).2.toOption.map List.length)) =
        some (some 1, 5, some 3) := by decide +kernel
  have theorems := scopes_of_rebind "a.cc" "namespace N { void f() { } } struct N { };" {} "a.cc" {}
    true
  cases parses : parse "a.cc" "namespace N { void f() { } } struct N { };" {} with
  | error stop => rw [parses] at passes; cases passes
  | ok parsed =>
    rw [parses] at passes theorems
    have passes := Option.some.inj passes
    dsimp only at passes theorems
    rcases once : bind "a.cc" {} parsed.tree (.fresh true) with ⟨first, answered⟩
    rw [once] at passes
    rcases Prod.mk.inj passes with ⟨reports, passes⟩
    rcases Prod.mk.inj passes with ⟨size, logs⟩
    cases answered with
    | error stop => cases reports
    | ok report =>
      cases again : (bind "a.cc" {} parsed.tree first).2 with
      | error stop => rw [again] at logs; cases logs
      | ok log =>
        rw [again] at logs
        rcases theorems first report log once again with ⟨same, _, noted⟩
        exact ⟨parsed, first, report, log, rfl, once, Option.some.inj reports, again,
          Option.some.inj logs, size, same.trans size, noted⟩

end CppNames
