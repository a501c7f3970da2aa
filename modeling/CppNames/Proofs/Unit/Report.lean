import CppNames.Proofs.Binding.Rebind
import CppNames.Proofs.Reference.Pair
import CppNames.Proofs.Unit.Analyze

namespace CppNames

/-!
# Reports on a text are in its file

Reading tokens, parsing, binding and finding uses all report problems.  Each of them is told the name
of the file, and each of them gives this name to every problem and to every note on it.  So the
report on a source text is on the file of that text and on no other.
-/

open Diagnostic (isIn_place)

/-! ## Reading tokens -/

namespace Scanner

/-- A scanner that has gone on reports in the file that it reads. -/
structure Reports (before after : Scanner) : Prop where
  file : after.file = before.file
  log : Log.AddsIn before.file before.log after.log

variable {before middle after : Scanner}

theorem Reports.refl (scanner : Scanner) : Reports scanner scanner := ⟨rfl, .refl _⟩

theorem Reports.trans (front : Reports before middle) (back : Reports middle after) :
    Reports before after :=
  ⟨back.file.trans front.file, front.log.trans (front.file ▸ back.log)⟩

theorem reports_readPiece (scanner : Scanner) (c : Char) (rest : List Char) :
    Reports scanner (scanner.readPiece c rest).2 := by
  refine ⟨rfl, ?_⟩
  unfold readPiece
  dsimp only
  cases problemOf? _ _ with
  | none =>
    rw [Option.map_none, Option.toList_none, List.append_nil]
    exact .refl _
  | some found => exact .single _ (isIn_place ..)

theorem reports_scan (scanner : Scanner) : Reports scanner scanner.scan.2 := by
  fun_induction scan scanner with
  | case1 scanner read => exact .refl scanner
  | case2 scanner c rest read token next step =>
    have piece := reports_readPiece scanner c rest
    rwa [step] at piece
  | case3 scanner c rest read next step ih =>
    have piece := reports_readPiece scanner c rest
    rw [step] at piece
    exact piece.trans ih

theorem reports_scanAll (scanner : Scanner) : Reports scanner scanner.scanAll.2 := by
  fun_induction scanAll scanner with
  | case1 scanner done => exact .refl scanner
  | case2 scanner more shorter read ends => exact reports_scan scanner
  | case3 scanner more shorter read goes behind ih => exact (reports_scan scanner).trans ih

end Scanner

variable {file source : String} {options : ParseOptions} {parsed : Parsed}

theorem isIn_of_tokenize (file : String) (cxx : Bool) (text : String) :
    ∀ problem ∈ (tokenize file cxx text).2, problem.IsIn file := by
  rcases (Scanner.reports_scanAll (.ofText file cxx text)).log with ⟨added, same, isIn⟩
  have same : (tokenize file cxx text).2 = added := same
  rw [same]
  exact isIn

/-! ## Parsing -/

theorem isIn_of_parse (parses : parse file source options = .ok parsed) :
    ∀ problem ∈ parsed.log, problem.IsIn file := by
  rcases of_parse parses with ⟨tree, state, _, rfl⟩
  refine List.forall_mem_append.mpr ⟨isIn_of_tokenize _ _ _, fun problem member => ?_⟩
  rcases List.mem_map.mp member with ⟨misfit, _, rfl⟩
  exact isIn_place ..

/-! ## Binding -/

open Binding in
theorem isIn_of_bind {tree : Node} (distinct : (tree.preorder.map Tree.id).Nodup)
    {options : BindOptions} {searchesBases : Bool} {log : Log}
    (ends : (bind file options tree (.fresh searchesBases)).2 = .ok log) :
    ∀ problem ∈ log, problem.IsIn file := by
  rcases ok_of_pass ends with ⟨state, ran, _, rfl⟩
  have ready : Ready (Setting.ofTrees [tree]) ⟨file, options, Table.global⟩
      (Bound.fresh searchesBases).table none :=
    (formed_fresh _ rfl rfl searchesBases).ready file options
  have suits := suits_ofTrees (Tree.coherent_of_nodup distinct) (List.mem_singleton_self tree)
    (Bound.fresh searchesBases).table
  rcases (keeps_bindTree ready suits).ends rfl rfl ran with ⟨_, _, _, adds, _⟩
  rcases adds.log with ⟨added, same, isIn⟩
  have same : state.log = added := same
  rw [same]
  exact isIn

/-! ## Finding uses -/

/-- A failed call is reported in the file that it is said to be in. -/
theorem CallError.isIn_of_diagnostic? {error : CallError} {table : Table} {span : Option Span}
    {report : Option Diagnostic} (makes : error.diagnostic? table file span = .ok report) :
    ∀ problem ∈ report.toList, problem.IsIn file := by
  cases error with
  | dependent name =>
    cases makes
    exact fun _ member => absurd member List.not_mem_nil
  | lookup error =>
    rcases Outcome.of_bind makes with ⟨made, placed, same⟩
    cases same
    exact List.forall_mem_singleton.mpr (LookupError.isIn_of_diagnostic placed)
  | undefined name | notCallable name | noViable name =>
    cases makes
    exact List.forall_mem_singleton.mpr (isIn_place ..)
  | ambiguous name candidates =>
    rcases Outcome.of_bind makes with ⟨list, _, same⟩
    cases same
    exact List.forall_mem_singleton.mpr (isIn_place ..)

namespace Reference

/-- Findings with reports in one file only. -/
def ReportIn (file : String) (found : Findings) : Prop := ∀ problem ∈ found.log, problem.IsIn file

variable {site : Site} {use : Use} {setting : Setting} {tree : Node} {found : Findings}

theorem isIn_reports (table : Table) (plain : Resolution) :
    Gives (reports table file use plain) fun log => ∀ problem ∈ log, problem.IsIn file := by
  cases plain with
  | unresolved => exact .ok (List.forall_mem_singleton.mpr (isIn_place ..))
  | ambiguous ids => exact .bind fun list _ => .ok (List.forall_mem_singleton.mpr (isIn_place ..))
  | resolved id | overloaded ids | dependent =>
    exact .ok fun _ member => absurd member List.not_mem_nil

theorem reportIn_ofUse (context : LookupContext) :
    Gives (ofUse site file context use) (ReportIn file) := by
  refine .bind fun looked _ => ?_
  cases looked with
  | ok symbols =>
    exact .bind fun plain _ => .bind fun log reported => .ok (isIn_reports _ _ log reported)
  | error error =>
    exact .bind fun made makes =>
      .ok (List.forall_mem_singleton.mpr (LookupError.isIn_of_diagnostic makes))

theorem reportIn_ofCall (call : Node) : Gives (ofCall site file call use) (ReportIn file) := by
  refine .bind fun result _ => ?_
  cases result with
  | ok id => exact .ok fun _ member => absurd member List.not_mem_nil
  | error error =>
    exact .bind fun report made => .bind fun resolution _ =>
      .ok (CallError.isIn_of_diagnostic? made)

theorem pairs_reportIn (setting : Setting) :
    Pairs setting setting.resolveCalls fun found _ => ReportIn setting.file found where
  nothing := fun _ member => absurd member List.not_mem_nil
  append first second := List.forall_mem_append.mpr ⟨first, second⟩
  looked context scope use := (reportIn_ofUse context).answer
  plain := id
  called calls scope call name named size small := by
    rw [if_pos calls]
    exact .self (.bind fun use _ => (reportIn_ofCall call).answer)

theorem reportIn_of_findReferences (finds : findReferences setting tree = .ok found) :
    ReportIn setting.file found := by
  have tracks := (pairs_reportIn setting).findReferences tree
  rw [finds] at tracks
  rcases tracks with ⟨_, _, reportIn⟩
  exact reportIn

end Reference

/-! ## The report -/

namespace Source

open Reference (Gives)

variable {source : Source} {options : Options}

theorem isIn_of_resolved {tree : Node} (distinct : (tree.preorder.map Tree.id).Nodup) :
    Gives (source.resolved options tree) fun result =>
      ∀ problem ∈ result.2.log, problem.IsIn source.file := by
  refine .bind fun log binds => .bind fun found finds => .ok ?_
  exact List.forall_mem_append.mpr
    ⟨isIn_of_bind distinct binds, Reference.reportIn_of_findReferences finds⟩

/-- The report on a source text is on its file, and so is every problem in it. -/
theorem isIn_of_analyze (source : Source) (options : Options) :
    Gives (source.analyze options) fun analysis => analysis.report.file = source.file ∧
      ∀ problem ∈ analysis.report.log, problem.IsIn source.file := by
  refine .bind fun parsed same => ?_
  have parses := ok_of_mapError same
  have both : ∀ log : Log, (∀ problem ∈ log, problem.IsIn source.file) →
      ∀ problem ∈ (parsed.log ++ log).sorted, problem.IsIn source.file := by
    intro log isIn problem member
    have inside := (Log.perm_sorted _).subset member
    exact List.forall_mem_append.mpr ⟨isIn_of_parse parses, isIn⟩ problem inside
  dsimp only
  split
  · refine .bind fun result resolves => .bind fun declarations _ => .ok ⟨rfl, both _ ?_⟩
    exact isIn_of_resolved (nodup_ids_of_parse parses) result resolves
  · refine .bind fun result plain => .bind fun declarations _ => .ok ⟨rfl, both _ ?_⟩
    cases plain
    exact fun _ member => absurd member List.not_mem_nil

end Source

end CppNames
