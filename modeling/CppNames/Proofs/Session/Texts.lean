import CppNames.Proofs.Unit.Report
import CppNames.Session.Basic
import Mathlib.Data.List.Basic

namespace CppNames

/-!
# Several source texts

A session analyses every source text on its own and then merges the problems of all texts by file
and place.  Problems at one place are problems of one text as long as no two texts have one file
name.  So the merged problems do not depend on the order of the texts, and the reports come in
that order.

What one text leaves unresolved may be declared in another one.  The index keeps declarations under
their qualified names, and a use is looked up as it is written.  So a use is linked to the
declarations in the other texts whose qualified name is, letter by letter, what is written, and to
no others.  A qualified name is the way from the file's scope down to a declaration.  What is written
begins with `::` where the file's scope is named, and then it differs from that way.
-/

namespace Session

variable {options : Options} {sources permuted : List Source} {session : Session}

/-! ## Each text on its own -/

/-- The report on a source text, if its analysis comes to an end. -/
def reportOf? (options : Options) (source : Source) : Option Report :=
  match reportOn options source with
  | .ok (.ok report) => some report
  | _ => none

/-- The failure of a source text, if its analysis stops at a malformed construct. -/
def failureOf? (options : Options) (source : Source) : Option Failure :=
  match reportOn options source with
  | .ok (.error failure) => some failure
  | _ => none

theorem exists_results (answered : ∀ source ∈ sources, ∃ result, reportOn options source = .ok result) :
    ∃ results, sources.mapM (reportOn options) = .ok results ∧
      results.filterMap Except.toOption = sources.filterMap (reportOf? options) ∧
      (ofResults results).failures = sources.filterMap (failureOf? options) := by
  induction sources with
  | nil => exact ⟨[], rfl, rfl, rfl⟩
  | cons source rest ih =>
    rcases List.forall_mem_cons.mp answered with ⟨⟨result, own⟩, behind⟩
    rcases ih behind with ⟨results, ran, reports, failures⟩
    refine ⟨result :: results, ?_, ?_, ?_⟩
    · rw [List.mapM_cons, own, ran]
      rfl
    · rw [List.filterMap_cons, List.filterMap_cons, reports]
      cases result <;> simp only [reportOf?, own] <;> rfl
    · rw [List.filterMap_cons, ← failures]
      cases result <;> simp only [failureOf?, own] <;> rfl

/-- A session has an answer where each text has one, and then it tells them in order. -/
theorem run_eq (answered : ∀ source ∈ sources, ∃ result, reportOn options source = .ok result) :
    ∃ session, run options sources = .ok session ∧
      session.reports = sources.filterMap (reportOf? options) ∧
      session.failures = sources.filterMap (failureOf? options) ∧
      session.log = Log.sorted ((sources.filterMap (reportOf? options)).flatMap (·.log)) := by
  rcases exists_results answered with ⟨results, ran, reports, failures⟩
  refine ⟨ofResults results, ?_, reports, failures, ?_⟩
  · unfold run
    rw [ran]
    rfl
  · rw [← reports]
    rfl

theorem answered_of_mapM {results : List (Except Failure Report)}
    (ran : sources.mapM (reportOn options) = .ok results) :
    ∀ source ∈ sources, ∃ result, reportOn options source = .ok result := by
  induction sources generalizing results with
  | nil => exact fun _ member => absurd member List.not_mem_nil
  | cons source rest ih =>
    rw [List.mapM_cons] at ran
    rcases Outcome.of_bind ran with ⟨result, own, ran⟩
    rcases Outcome.of_bind ran with ⟨behind, ran, _⟩
    exact List.forall_mem_cons.mpr ⟨⟨result, own⟩, ih ran⟩

/-- A report is on the file of its source text. -/
theorem isIn_of_reportOf? {source : Source} {report : Report}
    (reported : reportOf? options source = some report) :
    report.file = source.file ∧ ∀ problem ∈ report.log, problem.IsIn report.file := by
  unfold reportOf? reportOn at reported
  cases analyzes : source.analyze options with
  | ok analysis =>
    rw [analyzes] at reported
    cases reported
    rcases Source.isIn_of_analyze source options analysis analyzes with ⟨file, isIn⟩
    exact ⟨file, file ▸ isIn⟩
  | error error => cases error <;> rw [analyzes] at reported <;> cases reported

/-! ## All texts -/

theorem flatMap_eq_of_perm {α β : Type} {items others : List α} {tells : α → List β}
    (same : items.Perm others)
    (apart : items.Pairwise fun left right => tells left = [] ∨ tells right = []) :
    items.flatMap tells = others.flatMap tells := by
  induction same with
  | nil => rfl
  | cons item _ ih =>
    rw [List.flatMap_cons, List.flatMap_cons, ih (List.pairwise_cons.mp apart).2]
  | swap first second rest =>
    have one := (List.pairwise_cons.mp apart).1 first (List.mem_cons_self ..)
    rcases one with none | none <;> simp [none]
  | trans front _ ihFront ihBack =>
    have apartBehind := (front.pairwise_iff Or.symm).mp apart
    exact (ihFront apart).trans (ihBack apartBehind)

/-- Reports on different files make one log, in whatever order they come. -/
theorem sorted_eq_of_perm {reports others : List Report} (same : reports.Perm others)
    (distinct : reports.Pairwise fun left right => left.file ≠ right.file)
    (isIn : ∀ report ∈ reports, ∀ problem ∈ report.log, problem.file = some report.file) :
    Log.sorted (reports.flatMap (·.log)) = Log.sorted (others.flatMap (·.log)) := by
  refine Log.sorted_eq_of_filter fun problem => ?_
  rw [List.filter_flatMap, List.filter_flatMap]
  refine flatMap_eq_of_perm same (distinct.imp_of_mem ?_)
  intro left right inLeft inRight other
  by_contra both
  rcases not_or.mp both with ⟨some, someAgain⟩
  rcases List.exists_mem_of_ne_nil _ some with ⟨first, member⟩
  rcases List.exists_mem_of_ne_nil _ someAgain with ⟨second, memberAgain⟩
  rcases List.mem_filter.mp member with ⟨inside, meets⟩
  rcases List.mem_filter.mp memberAgain with ⟨insideAgain, meetsAgain⟩
  have file := Diagnostic.file_eq_of_order (Diagnostic.order_of_meets meets meetsAgain)
  rw [isIn left inLeft first inside, isIn right inRight second insideAgain] at file
  exact other (Option.some.inj file)

/-- Source texts of different files may be analysed in any order.  The problems come out merged in
the same way, and the reports in the order of the texts.  Each report is on one file, and so is
every problem in it. -/
theorem run_perm (distinct : (sources.map (·.file)).Nodup) (same : sources.Perm permuted)
    (ran : run options sources = .ok session) :
    ∃ other, run options permuted = .ok other ∧ other.log = session.log ∧
      session.reports = sources.filterMap (reportOf? options) ∧
      other.reports = permuted.filterMap (reportOf? options) ∧
      session.reports.Perm other.reports ∧ session.failures.Perm other.failures ∧
      ∀ report ∈ session.reports, ∀ problem ∈ report.log, problem.IsIn report.file := by
  rcases Outcome.of_bind ran with ⟨results, answers, _⟩
  have answered := answered_of_mapM answers
  rcases run_eq answered with ⟨session, ranAgain, reports, failures, log⟩
  cases ran.symm.trans ranAgain
  rcases run_eq fun source member => answered source (same.symm.subset member) with
    ⟨other, ranOther, otherReports, otherFailures, otherLog⟩
  have isIn : ∀ report ∈ sources.filterMap (reportOf? options), ∀ problem ∈ report.log,
      problem.IsIn report.file := by
    intro report member
    rcases List.mem_filterMap.mp member with ⟨source, _, reported⟩
    exact (isIn_of_reportOf? reported).2
  have apart : (sources.filterMap (reportOf? options)).Pairwise fun left right =>
      left.file ≠ right.file := by
    rw [List.pairwise_filterMap]
    refine (List.pairwise_map.mp distinct).imp fun other left first right second => ?_
    rw [(isIn_of_reportOf? first).1, (isIn_of_reportOf? second).1]
    exact other
  have merged := sorted_eq_of_perm (same.filterMap (reportOf? options)) apart
    fun report member problem inside => (isIn report member problem inside).1
  refine ⟨other, ranOther, ?_, reports, otherReports, ?_, ?_, reports ▸ isIn⟩
  · rw [otherLog, log, merged]
  · rw [reports, otherReports]
    exact same.filterMap _
  · rw [failures, otherFailures]
    exact same.filterMap _

/-- The theorem for two texts that both use a name that is not declared. -/
theorem run_perm_twoTexts : ∃ session other,
    run {} [⟨"b.cc", "int y = z;"⟩, ⟨"a.cc", "int y = z;"⟩] = .ok session ∧
      run {} [⟨"a.cc", "int y = z;"⟩, ⟨"b.cc", "int y = z;"⟩] = .ok other ∧
      session.reports.map (·.file) = ["b.cc", "a.cc"] ∧
      other.reports.map (·.file) = ["a.cc", "b.cc"] ∧ other.log = session.log := by
  have runs : (run {} [⟨"b.cc", "int y = z;"⟩, ⟨"a.cc", "int y = z;"⟩]).toOption.map
      (fun session => session.reports.map (·.file)) = some ["b.cc", "a.cc"] := by decide +kernel
  have runsAgain : (run {} [⟨"a.cc", "int y = z;"⟩, ⟨"b.cc", "int y = z;"⟩]).toOption.map
      (fun session => session.reports.map (·.file)) = some ["a.cc", "b.cc"] := by decide +kernel
  cases ran : run {} [⟨"b.cc", "int y = z;"⟩, ⟨"a.cc", "int y = z;"⟩] with
  | error fault => rw [ran] at runs; cases runs
  | ok session =>
    rw [ran] at runs
    rcases run_perm (by decide) (List.Perm.swap ..) ran with ⟨other, ranAgain, log, _⟩
    rw [ranAgain] at runsAgain
    exact ⟨session, other, rfl, ranAgain, Option.some.inj runs, Option.some.inj runsAgain, log⟩

end Session

namespace Index

/-- A declaration of a report as the target of a link. -/
def targetOf (report : Report) (declared : Declared) : LinkTarget :=
  ⟨report.file, declared.kind, declared.span, declared.defined⟩

/-- The declarations in the other reports whose qualified name is a given text. -/
def declaredElsewhere (reports : List Report) (unit : Nat) (name : String) : List LinkTarget :=
  reports.zipIdx.flatMap fun entry =>
    if entry.2 = unit then []
    else (entry.1.declarations.filter (·.qualifiedName == name)).map (targetOf entry.1)

section

variable {reports : List Report} {report : Report} {unit other : Nat} {name : String}

/-! ## The declarations of one report -/

theorem filterMap_zipIdx_of_fst {α β : Type} (items : List α) {numbered : α × Nat → Option β}
    {plain : α → Option β} (same : ∀ entry ∈ items.zipIdx, numbered entry = plain entry.1) :
    items.zipIdx.filterMap numbered = items.filterMap plain := by
  rw [List.filterMap_congr same]
  conv => rhs; rw [← List.zipIdx_map_fst 0 items]
  rw [List.filterMap_map]
  rfl

/-- An entry that the index holds for a report leads back to its declaration. -/
theorem target?_eq (there : reports[other]? = some report) {entry : Declared × Nat}
    (member : entry ∈ report.declarations.zipIdx) :
    target? reports ⟨other, entry.2⟩ = some (targetOf report entry.1) := by
  unfold target?
  simp only [there, List.mem_zipIdx_iff_getElem?.mp member, Option.bind_eq_bind, Option.bind_some]
  rfl

/-- What the entries of one report give a name that another text uses. -/
theorem targets_of_report (there : reports[other]? = some report) :
    ((((entriesOf report other).filter (·.1 == name)).map (·.2)).filter (·.unit ≠ unit)).filterMap
        (target? reports) =
      if other = unit then []
      else (report.declarations.filter (·.qualifiedName == name)).map (targetOf report) := by
  unfold entriesOf
  simp only [List.filter_map, List.filterMap_map, List.filter_filter, List.filterMap_filter,
    Function.comp_apply]
  by_cases own : other = unit
  · simp [own]
  · rw [if_neg own, ← List.filterMap_eq_map, List.filterMap_filter]
    refine filterMap_zipIdx_of_fst _ fun entry member => ?_
    by_cases named : entry.1.qualifiedName = name
    · simp [own, named, target?_eq there member]
    · simp [named]

/-! ## All reports -/

/-- What a name is linked to, told from the reports. -/
theorem targetsOutside_ofReports (reports : List Report) (unit : Nat) (name : String) :
    (ofReports reports).targetsOutside reports unit name = declaredElsewhere reports unit name := by
  unfold targetsOutside named ofReports declaredElsewhere
  simp only [List.filter_flatMap, List.map_flatMap, List.filterMap_flatMap]
  exact List.flatMap_congr fun entry member =>
    targets_of_report (List.mem_zipIdx_iff_getElem?.mp member)

/-- A name is linked where another text declares what is written, and to all such declarations. -/
theorem link?_ofReports (reports : List Report) (unit : Nat) (file : String)
    (use : UnresolvedName) :
    (ofReports reports).link? reports unit file use =
      if declaredElsewhere reports unit use.name = [] then none
      else some ⟨file, use.name, use.span, declaredElsewhere reports unit use.name⟩ := by
  unfold link?
  rw [targetsOutside_ofReports]
  cases declaredElsewhere reports unit use.name with
  | nil => rfl
  | cons first more => rfl

/-- A declaration that a name is linked to bears, in another report, the name as it is written. -/
theorem exists_of_mem_declaredElsewhere {target : LinkTarget}
    (member : target ∈ declaredElsewhere reports unit name) :
    ∃ other report declared, other ≠ unit ∧ reports[other]? = some report ∧
      declared ∈ report.declarations ∧ declared.qualifiedName = name ∧
      target = targetOf report declared := by
  rcases List.mem_flatMap.mp member with ⟨entry, inside, member⟩
  by_cases own : entry.2 = unit
  · rw [if_pos own] at member
    exact absurd member List.not_mem_nil
  · rw [if_neg own] at member
    rcases List.mem_map.mp member with ⟨declared, declares, rfl⟩
    rcases List.mem_filter.mp declares with ⟨declares, same⟩
    exact ⟨entry.2, entry.1, declared, own, List.mem_zipIdx_iff_getElem?.mp inside, declares,
      eq_of_beq same, rfl⟩

/-- The links of any reports.  A name that a report leaves unresolved is linked, under the text
with which it is written, to the declarations in the other reports whose qualified name is that
text, if there are any.  So where a name is written with a leading `::`, the declarations of what
stands behind the `::` are not among its targets: each of them has the `::` in its own qualified
name. -/
theorem mem_links_iff (reports : List Report) :
    (∀ link, link ∈ (ofReports reports).links reports ↔
      ∃ unit report use, reports[unit]? = some report ∧ use ∈ report.unresolved ∧
        declaredElsewhere reports unit use.name ≠ [] ∧
        link = ⟨report.file, use.name, use.span, declaredElsewhere reports unit use.name⟩) ∧
    ∀ unit path, ∀ target ∈ declaredElsewhere reports unit ("::" ++ path),
      ∃ other report declared, other ≠ unit ∧ reports[other]? = some report ∧
        declared ∈ report.declarations ∧ declared.qualifiedName = "::" ++ path ∧
        declared.qualifiedName ≠ path ∧ target = targetOf report declared := by
  refine ⟨fun link => ⟨fun member => ?_, ?_⟩, fun unit path target member => ?_⟩
  · rcases List.mem_flatMap.mp member with ⟨entry, inside, member⟩
    rcases List.mem_filterMap.mp member with ⟨use, unresolved, linked⟩
    rw [link?_ofReports] at linked
    split at linked
    · cases linked
    · next declared =>
      exact ⟨entry.2, entry.1, use, List.mem_zipIdx_iff_getElem?.mp inside, unresolved, declared,
        (Option.some.inj linked).symm⟩
  · rintro ⟨unit, report, use, there, unresolved, declared, rfl⟩
    refine List.mem_flatMap.mpr ⟨(report, unit), List.mem_zipIdx_iff_getElem?.mpr there, ?_⟩
    refine List.mem_filterMap.mpr ⟨use, unresolved, ?_⟩
    rw [link?_ofReports, if_neg declared]
  · rcases exists_of_mem_declaredElsewhere member with
      ⟨other, report, declared, apart, there, declares, same, rfl⟩
    refine ⟨other, report, declared, apart, there, declares, same, fun plain => ?_, rfl⟩
    have longer := congrArg String.length (same.symm.trans plain)
    rw [String.length_append] at longer
    have two : "::".length = 2 := by decide
    omega

/-- A class of another text is linked to a name that is written plainly, and not to one that is
written with a leading `::`. -/
example :
    let uses : Report := ⟨"a.cc", [], [], [], [⟨"::S", none⟩, ⟨"S", none⟩], 2⟩
    let declares : Report := ⟨"b.cc", [], [], [⟨"S", .classType true, "", none, true⟩], [], 0⟩
    (ofReports [uses, declares]).links [uses, declares] =
      [⟨"a.cc", "S", none, [⟨"b.cc", .classType true, none, true⟩]⟩] := by decide

end

end Index
end CppNames
