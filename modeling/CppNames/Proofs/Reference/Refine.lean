import CppNames.Proofs.Call.Best
import CppNames.Proofs.Lookup.Found
import CppNames.Proofs.Reference.Pair
import CppNames.Binding.Bind
import CppNames.Grammar.Parse

namespace CppNames

/-!
# What a call makes of its callee

The callee of a call that is a name may mean several symbols.  A call chooses one of them, or it
leaves open which one, or it has nothing to say and the name keeps the meaning that lookup gives it.
So a pass that resolves calls finds the same uses as the same pass that leaves them alone, and it only
narrows down what the callees mean.
-/

/-- The symbols that a name may stand for. -/
def Resolution.symbols : Resolution → List SymbolId
  | .resolved id => [id]
  | .overloaded ids | .ambiguous ids => ids
  | .unresolved | .dependent => []

/-- What a call may make of a name, given what lookup alone makes of it. -/
inductive Resolution.Narrows (plain : Resolution) : Resolution → Prop where
  | same : Narrows plain plain
  | dependent : Narrows plain .dependent
  | one {id : SymbolId} : id ∈ plain.symbols → Narrows plain (.resolved id)
  | several {ids : List SymbolId} : 2 ≤ ids.length → ids ⊆ plain.symbols →
    Narrows plain (.ambiguous ids)

/-- One use as a pass finds it that resolves calls, and as it is found where calls are left alone. -/
structure Reference.Refines (resolving plain : Reference) : Prop where
  span : resolving.span = plain.span
  name : resolving.name = plain.name
  other : resolving.isCall = false → resolving.resolution = plain.resolution
  callee : resolving.isCall = true → plain.resolution.Narrows resolving.resolution

/-! ## The meaning of some symbols -/

namespace Table

variable {table : Table} {ids : List SymbolId}

theorem allFunctions_eq (all : table.AllThere ids) :
    table.allFunctions ids = .ok (ids.all (table.passes SymbolKind.isFunction)) := by
  induction ids with
  | nil => rfl
  | cons id rest ih =>
    rcases List.forall_mem_cons.mp all with ⟨own, behind⟩
    rcases symbol_of_hasSymbol own with ⟨symbol, read⟩
    have passed : table.passes SymbolKind.isFunction id = symbol.isFunction := by
      simp only [passes, read]
      rfl
    unfold allFunctions
    rw [read, List.all_cons, passed]
    change (if symbol.isFunction then table.allFunctions rest else .ok false) = _
    rw [ih behind]
    cases symbol.isFunction <;> rfl

/-- A symbol that is read passes a test or its opposite. -/
theorem ofKind_not_eq_filter (test : SymbolKind → Bool) (all : table.AllThere ids) :
    table.ofKind (!test ·) ids = .ok (ids.filter (!table.passes test ·)) := by
  rw [ofKind_eq_filter _ _ all]
  refine congrArg Except.ok (List.filter_congr fun id member => ?_)
  rcases symbol_of_hasSymbol (all id member) with ⟨symbol, read⟩
  simp only [passes, read]

end Table

/-- What some symbols mean that were found: several that are not all functions are ambiguous. -/
theorem SymbolSet.resolution_eq {table : Table} {found : SymbolSet} (known : found.dependent = false)
    (some : found.ids ≠ []) (all : table.AllThere found.ids) :
    ∃ plain, found.resolution table = .ok plain ∧ plain.symbols = found.ids ∧
      ∀ ids, plain = .ambiguous ids ↔ ids = found.ids ∧ 2 ≤ found.ids.length ∧
        found.ids.all (table.passes SymbolKind.isFunction) = false := by
  unfold resolution
  rw [if_neg (by simp [known])]
  split
  · next none => exact absurd none some
  · next id only =>
    rw [only]
    exact ⟨.resolved id, rfl, rfl, fun ids => ⟨nofun, fun both => absurd both.2.1 (by simp)⟩⟩
  · next one =>
    have several : 2 ≤ found.ids.length := by
      match same : found.ids with
      | [] => exact absurd same some
      | [id] => exact absurd same (one id)
      | first :: second :: rest => simp
    rw [Table.allFunctions_eq all]
    cases functions : found.ids.all (table.passes SymbolKind.isFunction) with
    | true =>
      exact ⟨.overloaded found.ids, rfl, rfl, fun ids => ⟨nofun, fun both => nomatch both.2.2⟩⟩
    | false =>
      refine ⟨.ambiguous found.ids, rfl, rfl, fun ids => ⟨?_, ?_⟩⟩
      · rintro ⟨⟩
        exact ⟨rfl, several, rfl⟩
      · rintro ⟨rfl, _, _⟩
        rfl

namespace Call

variable {α β : Type}

/-- A choice behind another one. -/
theorem of_bind {first : Choice α} {next : α → Choice β} {result : Except CallError β}
    (ran : (first >>= next).run = .ok result) :
    (∃ error, first.run = .ok (.error error) ∧ result = .error error) ∨
      ∃ value, first.run = .ok (.ok value) ∧ (next value).run = .ok result := by
  rcases Outcome.of_bind ran with ⟨chosen, front, back⟩
  cases chosen with
  | error error =>
    cases back
    exact .inl ⟨error, front, rfl⟩
  | ok value => exact .inr ⟨value, front, back⟩

/-- Where the first of two choices fails, both do. -/
theorem front_of_bind {first : Choice α} {next : α → Choice β} {result : Except CallError β}
    (ran : (first >>= next).run = .ok result) :
    ∃ chosen, first.run = .ok chosen ∧ ∀ error, chosen = .error error → result = .error error := by
  rcases of_bind ran with ⟨error, front, same⟩ | ⟨value, front, _⟩
  · exact ⟨_, front, fun other equal => Except.error.inj equal ▸ same⟩
  · exact ⟨_, front, nofun⟩

/-- A choice behind a question to the table. -/
theorem of_lift {question : Outcome α} {next : α → Choice β} {result : Except CallError β}
    (ran : ((question : Choice α) >>= next).run = .ok result) :
    ∃ value, question = .ok value ∧ (next value).run = .ok result := by
  cases question with
  | error fault => cases ran
  | ok value => exact ⟨value, rfl, ran⟩

/-- What a call chooses whose callee means something by lookup alone, as long as its symbols are not
mixed. -/
inductive Chosen (plain : Resolution) : Except CallError SymbolId → Prop where
  | one {id : SymbolId} : id ∈ plain.symbols → Chosen plain (.ok id)
  | dependent (name : String) : Chosen plain (.error (.dependent name))
  | several {ids : List SymbolId} (name : String) : 2 ≤ ids.length → ids ⊆ plain.symbols →
    Chosen plain (.error (.ambiguous name ids))
  | undefined (name : String) : Chosen plain (.error (.undefined name))
  | notCallable (name : String) : Chosen plain (.error (.notCallable name))
  | noViable (name : String) : Chosen plain (.error (.noViable name))

variable {site : Site} {typeOf : TypeOf} {text : String} {callee call : Node} {name : Encoding}
  {found : SymbolSet} {result : Except CallError SymbolId} {plain : Resolution}

theorem found_eq (named : callee.calleeName? = some name) :
    Call.found site typeOf text callee = namedBy site text callee := by
  unfold Call.found
  cases callee with
  | nil => cases named
  | leaf label token => rfl
  | cell label construct name type head tail =>
    by_cases isName : construct = .name
    · subst isName
      rfl
    · simp [Tree.calleeName?, Tree.isLeaf, Tree.isA, Tree.construct?, isName] at named

/-- A callee that is a name finds what lookup finds. -/
theorem found_run (named : callee.calleeName? = some name) :
    (Call.found site typeOf text callee).run =
      (site.lookup name {}).map fun looked => looked.mapError .lookup := by
  rw [found_eq named]
  unfold namedBy
  rw [named]
  dsimp only
  cases site.lookup name {} with
  | error fault => rfl
  | ok looked => cases looked <;> rfl

theorem candidates_run (named : callee.calleeName? = some name)
    (looked : site.lookup name {} = .ok (.ok found)) :
    (candidates site typeOf text callee).run =
      if found.dependent then .ok (.error (.dependent text))
      else if found.isEmpty then .ok (.error (.undefined text)) else .ok (.ok found.ids) := by
  have finds : Call.found site typeOf text callee = pure found := by
    refine (found_run named).trans ?_
    rw [looked]
    rfl
  unfold candidates
  rw [finds, pure_bind]
  split
  · rfl
  split <;> rfl

theorem exists_lookup_of_candidates {chosen : Except CallError (List SymbolId)}
    (named : callee.calleeName? = some name)
    (ran : (candidates site typeOf text callee).run = .ok chosen) :
    ∃ looked, site.lookup name {} = .ok looked ∧
      ∀ error, looked = .error error → chosen = .error (.lookup error) := by
  rcases front_of_bind ran with ⟨first, front, fails⟩
  rw [found_run named] at front
  cases looked : site.lookup name {} with
  | error fault => rw [looked] at front; cases front
  | ok answered =>
    rw [looked] at front
    refine ⟨answered, rfl, ?_⟩
    rintro error rfl
    cases front
    exact fails _ rfl

theorem chosen_amongFunctions {functions : List SymbolId} (known : plain.symbols = functions)
    (ran : (amongFunctions site typeOf text call functions).run = .ok result) :
    Chosen plain result := by
  unfold amongFunctions at ran
  rcases of_lift ran with ⟨types, _, ran⟩
  rcases of_lift ran with ⟨viable, asked, ran⟩
  rcases Candidate.of_viable asked with ⟨convert, inside⟩
  have inside : ∀ candidate ∈ viable, candidate.id ∈ plain.symbols := known ▸ inside
  match viable with
  | [] =>
    cases ran
    exact .noViable text
  | [only] =>
    cases ran
    exact .one (inside only (List.mem_cons_self ..))
  | first :: second :: rest =>
    dsimp only at ran
    split at ran
    · next id best =>
      cases ran
      rcases Candidate.mem_of_best best with ⟨candidate, member, rfl⟩
      exact .one (inside candidate member)
    · next unbeaten best =>
      cases ran
      rcases Candidate.two_le_of_best convert nofun best with ⟨several, among⟩
      refine .several text several fun id member => ?_
      rcases among id member with ⟨candidate, there, rfl⟩
      exact inside candidate there

theorem chosen_throughObject {id : SymbolId} (member : id ∈ plain.symbols)
    (ran : (throughObject site text id).run = .ok result) : Chosen plain result := by
  unfold throughObject at ran
  rcases of_lift ran with ⟨symbol, _, ran⟩
  split at ran
  · dsimp only at ran
    split at ran
    · cases ran
      exact .one member
    · rcases of_lift ran with ⟨scope, _, ran⟩
      split at ran
      · cases ran
        exact .dependent text
      · cases ran
        exact .notCallable text
  · cases ran
    exact .notCallable text

theorem exists_lookup_of_resolveCall (named : call.first.calleeName? = some name)
    (ran : resolveCall site call = .ok result) :
    ∃ looked, site.lookup name {} = .ok looked ∧
      ∀ error, looked = .error error → result = .error (.lookup error) := by
  have there : call.first.isNil = false :=
    Reference.IsNamed.isNil_eq (Option.isSome_of_eq_some named)
  unfold resolveCall resolveWith at ran
  dsimp only at ran
  rw [if_neg (by simp [there])] at ran
  rcases front_of_bind ran with ⟨chosen, front, fails⟩
  rcases exists_lookup_of_candidates named front with ⟨looked, looks, failsFirst⟩
  exact ⟨looked, looks, fun error same => fails _ (failsFirst error same)⟩

/-- A callee without candidates is dependent or means nothing. -/
theorem exists_of_candidates_error {error : CallError} (named : callee.calleeName? = some name)
    (looked : site.lookup name {} = .ok (.ok found))
    (ran : (candidates site typeOf text callee).run = .ok (.error error)) :
    ∃ plain, found.resolution site.table = .ok plain ∧ Chosen plain (.error error) ∧
      ∀ ids, plain ≠ .ambiguous ids := by
  rw [candidates_run named looked] at ran
  split at ran
  · next depends =>
    cases ran
    refine ⟨.dependent, ?_, .dependent _, nofun⟩
    unfold SymbolSet.resolution
    rw [if_pos depends]
    rfl
  split at ran
  · next known nothing =>
    cases ran
    refine ⟨.unresolved, ?_, .undefined _, nofun⟩
    unfold SymbolSet.resolution
    have empty : found.ids = [] := by simpa [SymbolSet.isEmpty, known] using nothing
    rw [if_neg known, empty]
    rfl
  · cases ran

/-- The candidates are the symbols that lookup finds. -/
theorem of_candidates {ids : List SymbolId} (named : callee.calleeName? = some name)
    (looked : site.lookup name {} = .ok (.ok found))
    (ran : (candidates site typeOf text callee).run = .ok (.ok ids)) :
    found.dependent = false ∧ found.ids ≠ [] ∧ found.ids = ids := by
  rw [candidates_run named looked] at ran
  split at ran
  · cases ran
  next known =>
  split at ran
  · cases ran
  next nonempty =>
  cases ran
  have known : found.dependent = false := Bool.eq_false_of_not_eq_true known
  exact ⟨known, by simpa [SymbolSet.isEmpty, known] using nonempty, rfl⟩

section

variable {α : Type} {test : α → Bool} {items rest : List α} {first : α}

private theorem eq_singleton_of_filter (none : items.filter test = [])
    (others : items.filter (!test ·) = [first]) : items = [first] := by
  rw [← others, eq_comm, List.filter_eq_self]
  intro item member
  simpa using List.filter_eq_nil_iff.mp none item member

private theorem all_eq_false_of_filter (others : items.filter (!test ·) = first :: rest) :
    items.all test = false := by
  have inside := List.mem_filter.mp (others ▸ List.mem_cons_self ..)
  exact List.all_eq_false.mpr ⟨first, inside.1, by simpa using inside.2⟩

private theorem two_le_of_filter (others : items.filter (!test ·) = first :: rest)
    (more : items.filter test = [] → rest ≠ []) : 2 ≤ items.length := by
  have parts := List.length_eq_length_filter_add (l := items) test
  rw [others, List.length_cons] at parts
  by_contra few
  have none : (items.filter test).length = 0 ∧ rest.length = 0 := by omega
  exact more (List.length_eq_zero_iff.mp none.1) (List.length_eq_zero_iff.mp none.2)

end

/-- What a call chooses whose callee finds something.  Only where its symbols are mixed, some of
them functions and others not, the call itself says that they are. -/
theorem of_resolveCall (named : call.first.calleeName? = some name)
    (looked : site.lookup name {} = .ok (.ok found)) (ran : resolveCall site call = .ok result) :
    ∃ plain, found.resolution site.table = .ok plain ∧
      ((Chosen plain result ∧ ∀ ids, plain ≠ .ambiguous ids) ∨
        ∃ ids text, plain = .ambiguous ids ∧
          result = .error (.lookup (.ambiguous text ids))) := by
  have there : call.first.isNil = false :=
    Reference.IsNamed.isNil_eq (Option.isSome_of_eq_some named)
  unfold resolveCall resolveWith at ran
  dsimp only at ran
  rw [if_neg (by simp [there])] at ran
  rcases of_bind ran with ⟨error, front, rfl⟩ | ⟨ids, front, ran⟩
  · rcases exists_of_candidates_error named looked front with ⟨plain, means, chosen⟩
    exact ⟨plain, means, .inl chosen⟩
  rcases of_candidates named looked front with ⟨known, some, rfl⟩
  rcases of_lift ran with ⟨functions, selected, ran⟩
  rcases of_lift ran with ⟨others, left, ran⟩
  have all := (Table.allThere_of_ofKind selected).1
  rw [Table.ofKind_eq_filter _ _ all] at selected
  rw [Table.ofKind_not_eq_filter _ all] at left
  cases selected
  cases left
  rcases found.resolution_eq known some all with ⟨plain, means, symbols, mixed⟩
  refine ⟨plain, means, ?_⟩
  split at ran
  · next none =>
    have functions : ∀ id ∈ found.ids, site.table.passes (·.isFunction) id = true := by
      simpa using none
    rw [List.filter_eq_self.mpr functions] at ran
    refine .inl ⟨chosen_amongFunctions symbols ran, fun ids same => ?_⟩
    have not := ((mixed ids).mp same).2.2
    rw [List.all_eq_true.mpr functions] at not
    cases not
  next first rest others =>
  split at ran
  · next single =>
    have single : found.ids.filter (site.table.passes (·.isFunction)) = [] ∧ rest = [] := by
      simpa using single
    have only := eq_singleton_of_filter single.1 (single.2 ▸ others)
    have member : first ∈ plain.symbols := by simp [symbols, only]
    refine .inl ⟨chosen_throughObject member ran, fun ids same => ?_⟩
    have several := ((mixed ids).mp same).2.1
    rw [only] at several
    exact absurd several (by simp)
  · next several =>
    cases ran
    have several : found.ids.filter (site.table.passes (·.isFunction)) = [] → rest ≠ [] := by
      simpa using several
    exact .inr ⟨found.ids, call.first.joined, (mixed _).mpr
      ⟨rfl, two_le_of_filter others several, all_eq_false_of_filter others⟩, rfl⟩

end Call

namespace Reference

variable {setting : Setting} {site : Site} {file : String} {call : Node} {use : Use}
  {scope : ScopeId} {size : Nat}

theorem ofUse_of_found {context : LookupContext} {symbols : SymbolSet} {plain : Resolution}
    {log : Log} (looks : site.lookup use.name context = .ok (.ok symbols))
    (means : symbols.resolution site.table = .ok plain)
    (reported : reports site.table file use plain = .ok log) :
    ofUse site file context use = .ok (use.findings false plain log) := by
  unfold ofUse
  rw [looks]
  change (do
    let resolution ← symbols.resolution site.table
    return use.findings false resolution (← reports site.table file use resolution)) = _
  rw [means]
  change (do return use.findings false plain (← reports site.table file use plain)) = _
  rw [reported]
  rfl

theorem ofUse_of_error {context : LookupContext} {error : LookupError} {made : Diagnostic}
    (looks : site.lookup use.name context = .ok (.error error))
    (makes : error.diagnostic site.table file use.span = .ok made) :
    ofUse site file context use = .ok (use.findings false (ofLookupError error) [made]) := by
  unfold ofUse
  rw [looks]
  change (do
    let log := [← error.diagnostic site.table file use.span]
    return use.findings false (ofLookupError error) log) = _
  rw [makes]
  rfl

/-- Nothing but an ambiguous name needs the table to be reported. -/
theorem exists_reports {plain : Resolution} (known : ∀ ids, plain ≠ .ambiguous ids) (table : Table)
    (file : String) (use : Use) : ∃ log, reports table file use plain = .ok log := by
  cases plain with
  | ambiguous ids => exact absurd rfl (known ids)
  | unresolved | resolved id | overloaded ids | dependent => exact ⟨_, rfl⟩

/-- What a failed call makes of its callee. -/
theorem narrows_of_chosen {plain resolution : Resolution} {error : CallError}
    (chosen : Call.Chosen plain (.error error)) (falls : ofFailedCall site use = .ok plain)
    (means : ofCallError site use error = .ok resolution) : plain.Narrows resolution := by
  cases chosen with
  | dependent text =>
    cases means
    exact .dependent
  | several text several among =>
    cases means
    exact .several several among
  | undefined text | notCallable text | noViable text =>
    cases falls.symm.trans means
    exact .same

/-- Where lookup fails, a call makes of its callee what lookup alone makes of it. -/
theorem eq_ofLookupError {error : LookupError} {resolution : Resolution}
    (looks : site.lookup use.name {} = .ok (.error error))
    (means : ofCallError site use (.lookup error) = .ok resolution) :
    resolution = ofLookupError error := by
  cases error with
  | ambiguous text ids =>
    cases means
    rfl
  | undefined text | notScope text =>
    have means : ofFailedCall site use = .ok resolution := means
    unfold ofFailedCall at means
    rw [looks] at means
    cases means
    rfl

/-- The candidates that a call has listed in its report can be listed again. -/
theorem exists_reports_of_diagnostic? {table : Table} {span : Option Span} {text : String}
    {ids : List SymbolId} {report : Option Diagnostic}
    (reported : (CallError.lookup (.ambiguous text ids)).diagnostic? table file span = .ok report)
    (use : Use) : ∃ log, reports table file use (.ambiguous ids) = .ok log := by
  rcases Outcome.of_bind reported with ⟨made, makes, _⟩
  rcases Outcome.of_bind makes with ⟨list, lists, _⟩
  refine ⟨[use.report file .ambiguousReference [use.text, list]], ?_⟩
  unfold reports
  dsimp only
  rw [lists]
  rfl

/-- Where a call resolves its callee, lookup alone resolves it too, and the call narrows down what
it means. -/
theorem exists_ofUse_of_ofCall {found : Findings}
    (named : call.first.calleeName? = some use.name)
    (calls : ofCall site file call use = .ok found) :
    ∃ plain, ofUse site file {} use = .ok plain ∧
      List.Forall₂ Refines found.references plain.references := by
  rcases Outcome.of_bind calls with ⟨result, ran, calls⟩
  rcases Call.exists_lookup_of_resolveCall named ran with ⟨looked, looks, fails⟩
  have one {resolution plain : Resolution} (narrows : plain.Narrows resolution) :
      List.Forall₂ Refines [⟨use.span, use.text, resolution, true⟩]
        [⟨use.span, use.text, plain, false⟩] :=
    .cons ⟨rfl, rfl, nofun, fun _ => narrows⟩ .nil
  cases looked with
  | error error =>
    cases fails error rfl
    rcases Outcome.of_bind calls with ⟨report, reported, calls⟩
    rcases Outcome.of_bind calls with ⟨resolution, means, same⟩
    rcases Outcome.of_bind reported with ⟨made, makes, _⟩
    cases same
    exact ⟨_, ofUse_of_error looks makes, one (eq_ofLookupError looks means ▸ .same)⟩
  | ok symbols =>
    rcases Call.of_resolveCall named looks ran with
      ⟨plain, means, ⟨chosen, known⟩ | ⟨ids, text, rfl, rfl⟩⟩
    · rcases exists_reports known site.table file use with ⟨log, reported⟩
      refine ⟨_, ofUse_of_found looks means reported, ?_⟩
      cases result with
      | ok id =>
        cases calls
        cases chosen with
        | one member => exact one (.one member)
      | error error =>
        have falls : ofFailedCall site use = .ok plain := by
          unfold ofFailedCall
          rw [looks]
          exact means
        rcases Outcome.of_bind calls with ⟨report, _, calls⟩
        rcases Outcome.of_bind calls with ⟨resolution, keeps, same⟩
        cases same
        exact one (narrows_of_chosen chosen falls keeps)
    · rcases Outcome.of_bind calls with ⟨report, reported, calls⟩
      rcases Outcome.of_bind calls with ⟨resolution, keeps, same⟩
      cases same
      cases keeps
      rcases exists_reports_of_diagnostic? reported use with ⟨log, reported⟩
      exact ⟨_, ofUse_of_found looks means reported, one .same⟩

/-- To visit a callee that is a name means to look it up. -/
theorem visitWithin_of_calleeName? {callee : Node} {name : Encoding}
    (named : callee.calleeName? = some name) (small : callee.size ≤ size)
    (read : Use.ofNode name callee = .ok use) :
    visitWithin setting size scope callee = lookUp setting {} scope use := by
  cases callee with
  | nil => cases named
  | leaf label token =>
    have isIdentifier := (isNamed_leaf label token).mp (Option.isSome_of_eq_some named)
    have same : name = .simpleName token.text := by
      have same : (Tree.leaf label token).encodedName? = some name := named
      unfold Tree.encodedName? at same
      dsimp only at same
      rw [if_pos isIdentifier] at same
      exact (Option.some.inj same).symm
    rcases Outcome.of_bind read with ⟨span, placed, read⟩
    cases read
    have place : span = some token.span :=
      (Tree.eq_hull?_of_place placed).trans (Tree.hull?_leaf label token)
    have joined : (Tree.leaf label token).joined = token.text := by
      simp [Tree.joined, Tree.tokens, String.join]
    cases size with
    | zero => cases small
    | succ size =>
      change (if token.kind = .identifier then _ else _) = _
      rw [if_pos isIdentifier, same, place, joined]
      rfl
  | cell label construct own type head tail =>
    rcases isNamed_cell.mp (Option.isSome_of_eq_some named) with ⟨rfl, _⟩
    have same : own = some name := named
    cases size with
    | zero => exact absurd small (by rw [Tree.size]; omega)
    | succ size =>
      rw [same] at read ⊢
      change (do lookUp setting {} scope (← answer (Use.ofNode name _))) = _
      rw [read]
      rfl

/-- A use that is looked up is no callee. -/
theorem gives_ofUse (context : LookupContext) :
    Gives (ofUse site file context use) fun findings =>
      ∀ reference ∈ findings.references, reference.isCall = false := by
  refine .bind fun looked _ => ?_
  cases looked with
  | ok found =>
    exact .bind fun resolution _ => .bind fun log _ => .ok (List.forall_mem_singleton.mpr rfl)
  | error error => exact .bind fun report _ => .ok (List.forall_mem_singleton.mpr rfl)

theorem pairs_refines : Pairs setting false fun found plain =>
    List.Forall₂ Refines found.references plain.references where
  nothing := .nil
  append first second := List.rel_append first second
  looked context scope use := by
    intro found looks
    have plain := (gives_ofUse context).answer found looks
    refine List.forall₂_same.mpr fun reference member => ⟨rfl, rfl, fun _ => rfl, fun _ => .same⟩
  plain _ := rfl
  called _ scope call name named size small := by
    rw [if_neg Bool.false_ne_true]
    unfold resolveCallee
    cases read : Use.ofNode name call.first with
    | error fault => exact trivial
    | ok use =>
      rw [visitWithin_of_calleeName? named small read]
      have same : name = use.name := by
        rcases Outcome.of_bind read with ⟨span, _, same⟩
        cases same
        rfl
      exact .answer fun found calls => exists_ofUse_of_ofCall (same ▸ named) calls

/-- Resolving calls changes nothing but what callees mean, and narrows that down. -/
theorem refines_of_findReferences (setting : Setting) (tree : Node) :
    (∀ found, findReferences (setting.resolving true) tree = .ok found →
      ∃ plain, findReferences (setting.resolving false) tree = .ok plain ∧
        List.Forall₂ Refines found.references plain.references) ∧
    ∀ plain, findReferences (setting.resolving false) tree = .ok plain →
      (∃ found, findReferences (setting.resolving true) tree = .ok found) ∨
        ∃ fault, findReferences (setting.resolving true) tree = .error (.fault fault) := by
  have tracks := (@pairs_refines (setting.resolving true)).findReferences tree
  cases result : findReferences (setting.resolving true) tree with
  | ok found =>
    rw [result] at tracks
    refine ⟨fun other same => ?_, fun _ _ => .inl ⟨found, rfl⟩⟩
    cases same
    exact tracks
  | error error =>
    refine ⟨nofun, fun plain ends => ?_⟩
    rw [result] at tracks
    cases error with
    | fault fault => exact .inr ⟨fault, rfl⟩
    | shape error => cases ends.symm.trans tracks

/-- The theorem for a call that chooses the first of two functions. -/
theorem refines_of_findReferences_overloaded : ∃ parsed bound found plain,
    parse "a.cc" "void f(int); void f(char); int x = f(1);" {} = .ok parsed ∧
      (bind "a.cc" {} parsed.tree {}).1 = bound ∧
      findReferences (Setting.resolving ⟨bound.table, bound.annotations, "a.cc", true⟩ true)
        parsed.tree = .ok found ∧
      findReferences (Setting.resolving ⟨bound.table, bound.annotations, "a.cc", true⟩ false)
        parsed.tree = .ok plain ∧
      found.references.map (·.resolution) = [.resolved ⟨0⟩] ∧
      plain.references.map (·.resolution) = [.overloaded [⟨0⟩, ⟨1⟩]] ∧
      List.Forall₂ Refines found.references plain.references := by
  have walks : (parse "a.cc" "void f(int); void f(char); int x = f(1);" {}).toOption.map
      (fun parsed =>
        let bound := (bind "a.cc" {} parsed.tree {}).1
        [true, false].map fun resolves =>
          (findReferences (Setting.resolving ⟨bound.table, bound.annotations, "a.cc", true⟩ resolves)
            parsed.tree).toOption.map fun found => found.references.map (·.resolution)) =
      some [some [.resolved ⟨0⟩], some [.overloaded [⟨0⟩, ⟨1⟩]]] := by decide +kernel
  cases parses : parse "a.cc" "void f(int); void f(char); int x = f(1);" {} with
  | error stop => rw [parses] at walks; cases walks
  | ok parsed =>
    rw [parses] at walks
    have walks := Option.some.inj walks
    dsimp only at walks
    generalize binds : (bind "a.cc" {} parsed.tree {}).1 = bound at walks
    rw [List.map_cons, List.map_singleton, List.cons.injEq, List.cons.injEq] at walks
    rcases walks with ⟨first, second, _⟩
    cases ran : findReferences
        (Setting.resolving ⟨bound.table, bound.annotations, "a.cc", true⟩ true) parsed.tree with
    | error error => rw [ran] at first; cases first
    | ok found =>
      rw [ran] at first
      rcases (refines_of_findReferences ⟨bound.table, bound.annotations, "a.cc", true⟩
        parsed.tree).1 found ran with ⟨plain, leaves, refines⟩
      rw [leaves] at second
      exact ⟨parsed, bound, found, plain, rfl, binds, ran, leaves, Option.some.inj first,
        Option.some.inj second, refines⟩

end Reference

end CppNames
