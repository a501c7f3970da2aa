import CppNames.Lookup.Result
import CppNames.Proofs.Table.Change
import Mathlib.Data.List.Pairwise

namespace CppNames

/-!
# Problems in files

A pass over a source text reports problems in the file of the text only.  This is said of what a
pass adds to a log, because a log may hold problems of other files already.

A log that is in order is known by what it tells at each place.  Problems at one place keep their
order when a log is brought in order, so logs that tell the same at each place become the same.
-/

/-- A problem is in a file, and so is whatever is noted on it. -/
def Diagnostic.IsIn (file : String) (problem : Diagnostic) : Prop :=
  problem.file = some file ∧ ∀ note ∈ problem.related, note.file = some file

/-- Whatever was added to a log is in a file. -/
def Log.AddsIn (file : String) (before after : Log) : Prop :=
  ∃ added, after = before ++ added ∧ ∀ problem ∈ added, problem.IsIn file

variable {file : String}

namespace Diagnostic

theorem isIn_place (message : Message) (arguments : List String) (span : Option Span) :
    IsIn file { make message arguments with file := some file, span := span } :=
  ⟨rfl, fun _ member => absurd member List.not_mem_nil⟩

theorem IsIn.withRelated {problem note : Diagnostic} (isIn : problem.IsIn file)
    (noted : note.file = some file) : (problem.withRelated note).IsIn file :=
  ⟨isIn.1, List.forall_mem_append.mpr ⟨isIn.2, List.forall_mem_singleton.mpr noted⟩⟩

end Diagnostic

/-- A failed lookup is reported in the file that it is said to be in. -/
theorem LookupError.isIn_of_diagnostic {error : LookupError} {table : Table} {span : Option Span}
    {made : Diagnostic} (makes : error.diagnostic table file span = .ok made) : made.IsIn file := by
  cases error with
  | undefined name | notScope name =>
    cases makes
    exact Diagnostic.isIn_place ..
  | ambiguous name candidates =>
    rcases Outcome.of_bind makes with ⟨list, _, same⟩
    cases same
    exact Diagnostic.isIn_place ..

namespace Log.AddsIn

variable {before middle after : Log}

theorem refl (log : Log) : AddsIn file log log :=
  ⟨[], (List.append_nil log).symm, fun _ member => absurd member List.not_mem_nil⟩

theorem trans (front : AddsIn file before middle) (back : AddsIn file middle after) :
    AddsIn file before after := by
  rcases front with ⟨early, rfl, inEarly⟩
  rcases back with ⟨late, rfl, inLate⟩
  exact ⟨early ++ late, List.append_assoc .., List.forall_mem_append.mpr ⟨inEarly, inLate⟩⟩

theorem single (log : Log) {problem : Diagnostic} (isIn : problem.IsIn file) :
    AddsIn file log (log ++ [problem]) :=
  ⟨[problem], rfl, List.forall_mem_singleton.mpr isIn⟩

theorem isPrefix (adds : AddsIn file before after) : before <+: after := by
  rcases adds with ⟨added, rfl, _⟩
  exact List.prefix_append ..

end Log.AddsIn

/-! ## The order of a log -/

namespace Diagnostic

variable {left middle right : Diagnostic}

theorem order_eq : order =
    compareLex (compareOn Diagnostic.file) (compareOn fun problem => problem.span.map (·.start)) := by
  funext left right
  unfold order compareLex compareOn
  congr 1

instance : Std.TransCmp order := order_eq ▸ inferInstance

/-- Problems at one place are in one file. -/
theorem file_eq_of_order (same : left.order right = .eq) : left.file = right.file := by
  rw [order_eq] at same
  exact Std.LawfulEqCmp.eq_of_compare (compareLex_eq_eq.mp same).1

/-- Whether two problems are at one place. -/
def meets (left right : Diagnostic) : Bool := left.order right == .eq

theorem meets_iff : left.meets right = true ↔ left.order right = .eq := by simp [meets]

theorem meets_self (problem : Diagnostic) : problem.meets problem = true :=
  meets_iff.mpr Std.ReflCmp.compare_self

theorem order_of_meets {problem : Diagnostic} (first : problem.meets left = true)
    (second : problem.meets right = true) : left.order right = .eq :=
  Std.TransCmp.eq_trans (Std.OrientedCmp.eq_symm (meets_iff.mp first)) (meets_iff.mp second)

end Diagnostic

namespace Log

open Diagnostic (meets meets_iff)

/-- Problems in order. -/
def InOrder (log : Log) : Prop := log.Pairwise fun left right => (left.order right).isLE = true

private theorem isLE_total (left right : Diagnostic) :
    ((left.order right).isLE || (right.order left).isLE) = true := by
  have swapped : right.order left = (left.order right).swap := Std.OrientedCmp.eq_swap
  rw [swapped]
  cases left.order right <;> rfl

theorem perm_sorted (log : Log) : log.sorted.Perm log := List.mergeSort_perm log _

theorem inOrder_sorted (log : Log) : log.sorted.InOrder :=
  List.pairwise_mergeSort (fun _ _ _ => Std.TransCmp.isLE_trans) isLE_total log

/-- Problems at one place keep their order. -/
theorem filter_sorted (log : Log) (problem : Diagnostic) :
    log.sorted.filter problem.meets = log.filter problem.meets := by
  have together : InOrder (log.filter problem.meets) := by
    refine List.pairwise_of_forall_mem_list fun left first right second => ?_
    rw [Diagnostic.order_of_meets (List.mem_filter.mp first).2 (List.mem_filter.mp second).2]
    rfl
  have inside : (log.filter problem.meets).Sublist log.sorted :=
    List.sublist_mergeSort (fun _ _ _ => Std.TransCmp.isLE_trans) isLE_total together
      List.filter_sublist
  have within := inside.filter problem.meets
  simp only [List.filter_filter, Bool.and_self] at within
  have length : (log.sorted.filter problem.meets).length = (log.filter problem.meets).length :=
    ((perm_sorted log).filter problem.meets).length_eq
  exact (within.eq_of_length length.symm).symm

private theorem mem_of_filter {first second : Log} {problem : Diagnostic}
    (same : ∀ problem : Diagnostic, first.filter problem.meets = second.filter problem.meets)
    (member : problem ∈ first) : problem ∈ second := by
  have inside : problem ∈ first.filter problem.meets :=
    List.mem_filter.mpr ⟨member, problem.meets_self⟩
  rw [same problem] at inside
  exact List.mem_of_mem_filter inside

private theorem isLE_of_mem {head problem : Diagnostic} {rest : Log}
    (first : ∀ other ∈ rest, (head.order other).isLE = true) (member : problem ∈ head :: rest) :
    (head.order problem).isLE = true := by
  rcases List.mem_cons.mp member with rfl | behind
  · rw [Diagnostic.meets_iff.mp problem.meets_self]
    rfl
  · exact first problem behind

/-- A log in order is known by what it tells at each place. -/
theorem InOrder.eq_of_filter {first second : Log} (firstInOrder : InOrder first)
    (secondInOrder : InOrder second)
    (same : ∀ problem : Diagnostic, first.filter problem.meets = second.filter problem.meets) :
    first = second := by
  induction first generalizing second with
  | nil =>
    cases second with
    | nil => rfl
    | cons head rest =>
      have none := same head
      rw [List.filter_cons_of_pos head.meets_self] at none
      cases none
  | cons head rest ih =>
    cases second with
    | nil =>
      have none := same head
      rw [List.filter_cons_of_pos head.meets_self] at none
      cases none
    | cons other behind =>
      rcases List.pairwise_cons.mp firstInOrder with ⟨headFirst, firstBehind⟩
      rcases List.pairwise_cons.mp secondInOrder with ⟨otherFirst, secondBehind⟩
      have meets : head.meets other = true := by
        have there := isLE_of_mem otherFirst (mem_of_filter same (List.mem_cons_self ..))
        have back := isLE_of_mem headFirst
          (mem_of_filter (fun problem => (same problem).symm) (List.mem_cons_self ..))
        exact Diagnostic.meets_iff.mpr (Std.OrientedCmp.isLE_antisymm back there)
      have equal : head = other := by
        have both := same head
        rw [List.filter_cons_of_pos head.meets_self, List.filter_cons_of_pos meets] at both
        exact (List.cons.inj both).1
      subst equal
      congr 1
      refine ih firstBehind secondBehind fun problem => ?_
      have both := same problem
      rw [List.filter_cons, List.filter_cons] at both
      split at both
      · exact (List.cons.inj both).2
      · exact both

theorem sorted_eq_of_filter {first second : Log}
    (same : ∀ problem : Diagnostic, first.filter problem.meets = second.filter problem.meets) :
    first.sorted = second.sorted := by
  refine first.inOrder_sorted.eq_of_filter second.inOrder_sorted fun problem => ?_
  rw [filter_sorted, filter_sorted, same problem]

end Log

end CppNames
