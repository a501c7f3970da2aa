import CppNames.Call.Candidate
import CppNames.Proofs.Table.Change
import Mathlib.Data.Fintype.EquivFin
import Mathlib.Data.Fintype.Sets
import Mathlib.Data.List.Forall2

namespace CppNames
namespace Candidate

/-!
# The order of candidates

Candidates for one call convert the same arguments.  Among them, to be better is a strict order.
So whatever a candidate is, one that no other is better than is that candidate or better than it.
A candidate that is the only one of this kind is therefore better than all others, and where none
is better than all others, at least two are unbeaten.
-/

variable {left middle right candidate : Candidate} {candidates : List Candidate} {count : Nat}

/-! ## Two candidates -/

/-- The places of the conversions of a candidate. -/
def ranks (candidate : Candidate) : List Nat := candidate.conversions.map Conversion.rank

/-- One candidate converts every argument at least as well as another one. -/
def AsGood (left right : Candidate) : Prop := List.Forall₂ (· ≤ ·) left.ranks right.ranks

private theorem forall₂_le_trans {first second third : List Nat}
    (early : List.Forall₂ (· ≤ ·) first second) (late : List.Forall₂ (· ≤ ·) second third) :
    List.Forall₂ (· ≤ ·) first third := by
  induction early generalizing third with
  | nil => exact late
  | cons head _ ih =>
    cases late with
    | cons next rest => exact .cons (head.trans next) (ih rest)

private theorem eq_of_forall₂_le {first second : List Nat}
    (early : List.Forall₂ (· ≤ ·) first second) (late : List.Forall₂ (· ≤ ·) second first) :
    first = second := by
  induction early with
  | nil => rfl
  | cons head _ ih =>
    cases late with
    | cons back rest => rw [Nat.le_antisymm head back, ih rest]

/-- Where nothing is worse, something is better exactly where not all is the same. -/
private theorem exists_lt_iff {first second : List Nat}
    (all : List.Forall₂ (· ≤ ·) first second) :
    (∃ pair ∈ first.zip second, pair.1 < pair.2) ↔ first ≠ second := by
  induction all with
  | nil => simp
  | cons head _ ih =>
    rw [List.zip_cons_cons, List.exists_mem_cons_iff, ih, ne_eq, ne_eq, List.cons.injEq, not_and_or]
    exact or_congr_left head.lt_iff_ne

theorem AsGood.trans (first : left.AsGood middle) (second : middle.AsGood right) :
    left.AsGood right :=
  forall₂_le_trans first second

theorem AsGood.ranks_eq (there : left.AsGood right) (back : right.AsGood left) :
    left.ranks = right.ranks :=
  eq_of_forall₂_le there back

/-- A better candidate is worse nowhere.  It is better somewhere, or else it is no template and the
other one is. -/
theorem isBetterThan_iff (same : left.conversions.length = right.conversions.length) :
    left.isBetterThan right = true ↔ left.AsGood right ∧
      (left.ranks ≠ right.ranks ∨ left.isTemplate = false ∧ right.isTemplate = true) := by
  have lengths : left.ranks.length = right.ranks.length := by simpa [ranks] using same
  unfold isBetterThan
  dsimp only
  rw [Bool.and_eq_true]
  refine (and_congr_left' ?asGood).trans (and_congr_right fun all => ?somewhere)
  case asGood =>
    unfold AsGood
    rw [List.forall₂_iff_zip, and_iff_right lengths, List.all_eq_true]
    simp [paired, ranks]
  case somewhere =>
    rw [← exists_lt_iff all]
    simp [paired, ranks]

theorem isBetterThan_trans (same : left.conversions.length = middle.conversions.length)
    (sameNext : middle.conversions.length = right.conversions.length)
    (first : left.isBetterThan middle = true) (second : middle.isBetterThan right = true) :
    left.isBetterThan right = true := by
  rw [isBetterThan_iff same] at first
  rw [isBetterThan_iff sameNext] at second
  rw [isBetterThan_iff (same.trans sameNext)]
  rcases first with ⟨asGood, first⟩
  rcases second with ⟨asGoodNext, second⟩
  refine ⟨asGood.trans asGoodNext, ?_⟩
  by_cases equal : left.ranks = right.ranks
  · -- all three have the same conversions, so only templates can make the difference, and only once
    have behind : middle.AsGood left := by
      unfold AsGood
      rw [equal]
      exact asGoodNext
    have front := asGood.ranks_eq behind
    rcases first.resolve_left (not_not_intro front) with ⟨_, template⟩
    rcases second.resolve_left (not_not_intro (front.symm.trans equal)) with ⟨plain, _⟩
    rw [plain] at template
    cases template
  · exact .inl equal

/-! ## Many candidates -/

/-- Candidates that all convert some number of arguments. -/
def Convert (count : Nat) (candidates : List Candidate) : Prop :=
  ∀ candidate ∈ candidates, candidate.conversions.length = count

/-- None of some candidates is better. -/
def Unbeaten (candidates : List Candidate) (candidate : Candidate) : Prop :=
  ∀ other ∈ candidates, other.isBetterThan candidate = false

instance (candidates : List Candidate) (candidate : Candidate) :
    Decidable (Unbeaten candidates candidate) :=
  inferInstanceAs (Decidable (∀ other ∈ candidates, other.isBetterThan candidate = false))

/-- One of some candidates is better than another one of them. -/
def Beats (candidates : List Candidate) (first second : {candidate // candidate ∈ candidates}) :
    Prop := first.1.isBetterThan second.1 = true

/-- No list of candidates, each better than the one before, goes on for ever. -/
theorem Convert.wellFounded_beats (convert : Convert count candidates) :
    WellFounded (Beats candidates) := by
  have lengths (first second : {candidate // candidate ∈ candidates}) :
      first.1.conversions.length = second.1.conversions.length :=
    (convert first.1 first.2).trans (convert second.1 second.2).symm
  have : IsTrans _ (Beats candidates) :=
    ⟨fun first second third => isBetterThan_trans (lengths first second) (lengths second third)⟩
  have : Std.Irrefl (Beats candidates) := ⟨fun first => by simp [Beats, isBetterThan_irrefl]⟩
  exact Finite.wellFounded_of_trans_of_irrefl (Beats candidates)

/-- Behind every candidate stands one that is unbeaten. -/
theorem exists_unbeaten (convert : Convert count candidates) (member : candidate ∈ candidates) :
    ∃ top ∈ candidates, Unbeaten candidates top ∧
      (top = candidate ∨ top.isBetterThan candidate = true) := by
  suffices all : ∀ item : {candidate // candidate ∈ candidates}, ∃ top ∈ candidates,
      Unbeaten candidates top ∧ (top = item.1 ∨ top.isBetterThan item.1 = true) from
    all ⟨candidate, member⟩
  intro item
  induction item using convert.wellFounded_beats.induction with
  | _ item ih =>
    by_cases unbeaten : Unbeaten candidates item.1
    · exact ⟨item.1, item.2, unbeaten, .inl rfl⟩
    · have beaten : ∃ other ∈ candidates, other.isBetterThan item.1 = true := by
        simpa [Unbeaten] using unbeaten
      rcases beaten with ⟨other, among, beats⟩
      rcases ih ⟨other, among⟩ beats with ⟨top, inside, unbeatenTop, rfl | beatsOther⟩
      · exact ⟨top, inside, unbeatenTop, .inr beats⟩
      · have lengths := (convert top inside).trans (convert other among).symm
        have lengthsNext := (convert other among).trans (convert item.1 item.2).symm
        exact ⟨top, inside, unbeatenTop, .inr
          (isBetterThan_trans lengths lengthsNext beatsOther beats)⟩

/-! ## The choice -/

theorem eq_of_mem_eachWithOthers {α : Type} {items others : List α} {item : α}
    (member : (item, others) ∈ eachWithOthers items) :
    ∃ front back, items = front ++ item :: back ∧ others = front ++ back := by
  induction items generalizing others with
  | nil => cases member
  | cons first rest ih =>
    rcases List.mem_cons.mp member with same | behind
    · cases same
      exact ⟨[], rest, rfl, rfl⟩
    · rcases List.mem_map.mp behind with ⟨⟨other, fewer⟩, inside, same⟩
      cases same
      rcases ih inside with ⟨front, back, rfl, rfl⟩
      exact ⟨first :: front, back, rfl, rfl⟩

theorem map_fst_eachWithOthers {α : Type} (items : List α) :
    (eachWithOthers items).map (·.1) = items := by
  induction items with
  | nil => rfl
  | cons first rest ih =>
    rw [eachWithOthers, List.map_cons, List.map_map]
    exact congrArg _ ih

/-- A candidate is not better than itself, so its others tell whether it is unbeaten. -/
theorem unbeaten_iff {others : List Candidate}
    (member : (candidate, others) ∈ eachWithOthers candidates) :
    (!others.any (·.isBetterThan candidate)) = true ↔ Unbeaten candidates candidate := by
  rcases eq_of_mem_eachWithOthers member with ⟨front, back, rfl, rfl⟩
  simp [Unbeaten, isBetterThan_irrefl, or_imp, forall_and]

/-- Where no candidate is better than all others, the unbeaten ones are chosen. -/
theorem eq_unbeaten_of_best {ids : List SymbolId} (chosen : best candidates = .error ids) :
    (∀ item ∈ eachWithOthers candidates, item.2.all item.1.isBetterThan = false) ∧
      ids = (candidates.filter fun candidate => Unbeaten candidates candidate).map (·.id) := by
  unfold best at chosen
  dsimp only at chosen
  split at chosen
  · cases chosen
  next none =>
  cases chosen
  refine ⟨fun item member => by simpa using List.find?_eq_none.mp none item member, ?_⟩
  have same : ∀ item ∈ eachWithOthers candidates, (!item.2.any (·.isBetterThan item.1)) =
      decide (Unbeaten candidates item.1) := by
    intro item member
    rw [Bool.eq_iff_iff, unbeaten_iff member, decide_eq_true_iff]
  rw [List.filter_congr same]
  calc ((eachWithOthers candidates).filter fun item => decide (Unbeaten candidates item.1)).map
        (·.1.id)
      = (((eachWithOthers candidates).map (·.1)).filter
          fun candidate => decide (Unbeaten candidates candidate)).map (·.id) := by
        rw [List.filter_map, List.map_map]
        rfl
    _ = (candidates.filter fun candidate => Unbeaten candidates candidate).map (·.id) := by
        rw [map_fst_eachWithOthers]

theorem mem_of_best {id : SymbolId} (chosen : best candidates = .ok id) :
    ∃ candidate ∈ candidates, candidate.id = id := by
  unfold best at chosen
  dsimp only at chosen
  split at chosen
  · next candidate others found =>
    cases chosen
    have member := List.mem_of_find?_eq_some found
    rcases eq_of_mem_eachWithOthers member with ⟨front, back, rfl, _⟩
    exact ⟨candidate, List.mem_append_right _ (List.mem_cons_self ..), rfl⟩
  · cases chosen

/-- Where fewer than two members of a list pass a test, nothing does besides one that does. -/
private theorem not_of_few {α : Type} {test : α → Bool} {front back : List α} {item other : α}
    (few : ((front ++ item :: back).filter test).length < 2) (passes : test item = true)
    (among : other ∈ front ++ back) : test other = false := by
  have same : ((front ++ item :: back).filter test).length =
      ((item :: (front ++ back)).filter test).length := (List.perm_middle.filter test).length_eq
  rw [List.filter_cons_of_pos passes, List.length_cons] at same
  by_contra also
  have more : 0 < ((front ++ back).filter test).length :=
    List.length_pos_of_mem (List.mem_filter.mpr ⟨among, Bool.eq_true_of_not_eq_false also⟩)
  omega

/-- Where no candidate is better than all others, there are at least two that are unbeaten. -/
theorem two_le_of_best {ids : List SymbolId} (convert : Convert count candidates)
    (some : candidates ≠ []) (chosen : best candidates = .error ids) :
    2 ≤ ids.length ∧ ∀ id ∈ ids, ∃ candidate ∈ candidates, candidate.id = id := by
  rcases eq_unbeaten_of_best chosen with ⟨never, rfl⟩
  constructor
  · rw [List.length_map]
    by_contra few
    rcases List.exists_mem_of_ne_nil _ some with ⟨candidate, member⟩
    rcases exists_unbeaten convert member with ⟨top, inside, unbeaten, _⟩
    rw [← map_fst_eachWithOthers candidates] at inside
    rcases List.mem_map.mp inside with ⟨⟨top, others⟩, listed, rfl⟩
    rcases eq_of_mem_eachWithOthers listed with ⟨front, back, rfl, rfl⟩
    -- there are no two, so nothing else is unbeaten, and this one is better than all others
    have alone : ∀ other ∈ front ++ back, ¬ Unbeaten (front ++ top :: back) other := by
      intro other among
      have fails := not_of_few (Nat.lt_of_not_le few) (decide_eq_true unbeaten) among
      exact of_decide_eq_false fails
    have better : (front ++ back).all top.isBetterThan = true := by
      refine List.all_eq_true.mpr fun other among => ?_
      have inside : other ∈ front ++ top :: back :=
        (List.sublist_cons_self top back).append_left front |>.subset among
      rcases exists_unbeaten convert inside with ⟨best, place, unbeatenBest, rfl | beats⟩
      · exact absurd unbeatenBest (alone _ among)
      · obtain rfl : best = top := by
          by_contra other
          have elsewhere : best ∈ front ++ back := by simpa [other] using place
          exact alone best elsewhere unbeatenBest
        exact beats
    rw [never _ listed] at better
    cases better
  · intro id member
    rcases List.mem_map.mp member with ⟨candidate, inside, same⟩
    exact ⟨candidate, List.mem_of_mem_filter inside, same⟩

/-! ## The order in which candidates are met -/

/-- The candidate at a place is better than all others.  Places count, since candidates that are
listed twice are in each other's way. -/
def Leads (candidates : List Candidate) (place : Fin candidates.length) : Prop :=
  ∀ other, other ≠ place → candidates[place].isBetterThan candidates[other] = true

/-- Two choices are the same, apart from the order of the unbeaten candidates. -/
inductive SameChoice : Except (List SymbolId) SymbolId → Except (List SymbolId) SymbolId → Prop
  | best (id : SymbolId) : SameChoice (.ok id) (.ok id)
  | unbeaten {ids others : List SymbolId} (same : ids.Perm others) :
    SameChoice (.error ids) (.error others)

theorem mem_eachWithOthers_getElem {α : Type} (items : List α) (place : Fin items.length) :
    (items[place], items.eraseIdx place) ∈ eachWithOthers items := by
  induction items with
  | nil => exact place.elim0
  | cons first rest ih =>
    rcases place with ⟨place, inside⟩
    cases place with
    | zero => exact List.mem_cons_self ..
    | succ place =>
      have behind := ih ⟨place, Nat.lt_of_succ_lt_succ inside⟩
      exact List.mem_cons_of_mem _ (List.mem_map.mpr ⟨_, behind, rfl⟩)

theorem leads_iff {place : Fin candidates.length} :
    Leads candidates place ↔
      ∀ other ∈ candidates.eraseIdx place, candidates[place].isBetterThan other = true := by
  unfold Leads
  constructor
  · intro leads other member
    rcases List.mem_eraseIdx_iff_getElem.mp member with ⟨index, inside, different, rfl⟩
    exact leads ⟨index, inside⟩ fun same => different (congrArg Fin.val same)
  · intro leads other different
    exact leads _ (List.mem_eraseIdx_iff_getElem.mpr
      ⟨other, other.isLt, fun same => different (Fin.ext same), rfl⟩)

/-- Two candidates are not both better than all others: each would be better than itself. -/
theorem Leads.unique {place other : Fin candidates.length} (convert : Convert count candidates)
    (leads : Leads candidates place) (also : Leads candidates other) : other = place := by
  by_contra different
  have first := convert _ (List.getElem_mem place.isLt)
  have second := convert _ (List.getElem_mem other.isLt)
  have itself := isBetterThan_trans (first.trans second.symm) (second.trans first.symm)
    (leads other different) (also place (Ne.symm different))
  rw [isBetterThan_irrefl] at itself
  cases itself

theorem exists_leads_of_best {id : SymbolId} (chosen : best candidates = .ok id) :
    ∃ place, Leads candidates place ∧ candidates[place].id = id := by
  unfold best at chosen
  dsimp only at chosen
  split at chosen
  · next candidate others found =>
    cases chosen
    have all := List.find?_some found
    rcases eq_of_mem_eachWithOthers (List.mem_of_find?_eq_some found) with ⟨front, back, rfl, rfl⟩
    have inside : front.length < (front ++ candidate :: back).length := by simp
    refine ⟨⟨front.length, inside⟩, leads_iff.mpr fun other member => ?_, by simp⟩
    have among : other ∈ front ++ back := by simpa [List.eraseIdx_append_of_length_le] using member
    simpa using List.all_eq_true.mp all other among
  · cases chosen

theorem best_of_leads {place : Fin candidates.length} (convert : Convert count candidates)
    (leads : Leads candidates place) : best candidates = .ok candidates[place].id := by
  cases chosen : best candidates with
  | error ids =>
    have never := (eq_unbeaten_of_best chosen).1 _ (mem_eachWithOthers_getElem candidates place)
    have all := List.all_eq_true.mpr (leads_iff.mp leads)
    rw [all] at never
    cases never
  | ok id =>
    rcases exists_leads_of_best chosen with ⟨other, also, rfl⟩
    rw [leads.unique convert also]

/-- What it means to be chosen does not speak of an order. -/
theorem best_eq_ok_iff {id : SymbolId} (convert : Convert count candidates) :
    best candidates = .ok id ↔ ∃ candidate others, candidates.Perm (candidate :: others) ∧
      candidate.id = id ∧ ∀ other ∈ others, candidate.isBetterThan other = true := by
  constructor
  · intro chosen
    rcases exists_leads_of_best chosen with ⟨place, leads, same⟩
    exact ⟨_, _, (List.getElem_cons_eraseIdx_perm place.isLt).symm, same, leads_iff.mp leads⟩
  · rintro ⟨candidate, others, perm, rfl, all⟩
    rcases List.getElem_of_mem (perm.mem_iff.mpr (List.mem_cons_self ..)) with ⟨place, inside, same⟩
    have rest : (candidates.eraseIdx place).Perm others :=
      ((List.getElem_cons_eraseIdx_perm inside).trans (same ▸ perm)).cons_inv
    have leads : Leads candidates ⟨place, inside⟩ := leads_iff.mpr fun other member => by
      change candidates[place].isBetterThan other = true
      rw [same]
      exact all other (rest.mem_iff.mp member)
    rw [best_of_leads convert leads]
    exact congrArg _ (congrArg Candidate.id same)

theorem best_perm {reordered : List Candidate} (convert : Convert count candidates)
    (perm : candidates.Perm reordered) : SameChoice (best candidates) (best reordered) := by
  have convertReordered : Convert count reordered :=
    fun candidate member => convert candidate (perm.mem_iff.mpr member)
  have same : ∀ id, best candidates = .ok id ↔ best reordered = .ok id := by
    intro id
    rw [best_eq_ok_iff convert, best_eq_ok_iff convertReordered]
    exact exists₂_congr fun candidate others =>
      and_congr_left' ⟨perm.symm.trans, perm.trans⟩
  cases here : best candidates with
  | ok id =>
    rw [(same id).mp here]
    exact .best id
  | error ids =>
    cases there : best reordered with
    | ok id =>
      rw [(same id).mpr there] at here
      cases here
    | error others =>
      rw [(eq_unbeaten_of_best here).2, (eq_unbeaten_of_best there).2]
      have unbeaten : ∀ candidate, Unbeaten candidates candidate ↔ Unbeaten reordered candidate :=
        fun candidate => forall_congr' fun other => imp_congr_left perm.mem_iff
      simp only [unbeaten]
      exact .unbeaten ((perm.filter _).map _)

/-- Among at least two candidates for one call, to be better is a strict order.  One is chosen
exactly where a single candidate is better than all others, and this one converts every argument at
least as well as each other one.  Otherwise those are left that none is better than, and they are
at least two.  In whatever order the candidates are met, the choice is the same. -/
theorem best_choice (convert : Convert count candidates) (several : 2 ≤ candidates.length) :
    (∀ candidate ∈ candidates, candidate.isBetterThan candidate = false) ∧
    (∀ left ∈ candidates, ∀ middle ∈ candidates, ∀ right ∈ candidates,
      left.isBetterThan middle = true → middle.isBetterThan right = true →
      left.isBetterThan right = true) ∧
    (∀ id, best candidates = .ok id ↔ ∃ place, candidates[place].id = id ∧
      Leads candidates place ∧ ∀ other, Leads candidates other → other = place) ∧
    (∀ place, Leads candidates place → ∀ other, other ≠ place →
      candidates[place].AsGood candidates[other]) ∧
    (∀ ids, best candidates = .error ids → 2 ≤ ids.length ∧
      ids = (candidates.filter fun candidate => Unbeaten candidates candidate).map (·.id)) ∧
    ∀ reordered, candidates.Perm reordered → SameChoice (best candidates) (best reordered) := by
  refine ⟨fun candidate _ => candidate.isBetterThan_irrefl, ?_, fun id => ⟨?_, ?_⟩, ?_, ?_,
    fun reordered perm => best_perm convert perm⟩
  · intro left inLeft middle inMiddle right inRight
    exact isBetterThan_trans ((convert left inLeft).trans (convert middle inMiddle).symm)
      ((convert middle inMiddle).trans (convert right inRight).symm)
  · intro chosen
    rcases exists_leads_of_best chosen with ⟨place, leads, same⟩
    exact ⟨place, same, leads, fun other also => leads.unique convert also⟩
  · rintro ⟨place, rfl, leads, _⟩
    exact best_of_leads convert leads
  · intro place leads other different
    have lengths := (convert _ (List.getElem_mem place.isLt)).trans
      (convert _ (List.getElem_mem other.isLt)).symm
    exact ((isBetterThan_iff lengths).mp (leads other different)).1
  · intro ids chosen
    have some : candidates ≠ [] :=
      List.ne_nil_of_length_pos (Nat.lt_of_lt_of_le Nat.two_pos several)
    exact ⟨(two_le_of_best convert some chosen).1, (eq_unbeaten_of_best chosen).2⟩

/-- Three functions of two parameters.  The first converts the first argument better and the second
one the second argument, and the third is a template that ties with the first. -/
def threeWays : List Candidate :=
  [⟨⟨0⟩, [.exact, .standard], false⟩, ⟨⟨1⟩, [.promotion, .promotion], false⟩,
    ⟨⟨2⟩, [.exact, .standard], true⟩]

/-- The template is beaten and the two others tie, from whatever end they are looked at. -/
theorem best_choice_threeWays :
    Convert 2 threeWays ∧ 2 ≤ threeWays.length ∧ best threeWays = .error [⟨0⟩, ⟨1⟩] ∧
      2 ≤ [SymbolId.mk 0, ⟨1⟩].length ∧ SameChoice (best threeWays) (best threeWays.reverse) := by
  have convert : Convert 2 threeWays := by
    unfold Convert
    decide
  have tie : best threeWays = .error [⟨0⟩, ⟨1⟩] := by decide
  rcases best_choice convert (by decide) with ⟨_, _, _, _, unbeaten, reordered⟩
  exact ⟨convert, by decide, tie, (unbeaten _ tie).1, reordered _ (List.reverse_perm _).symm⟩

/-! ## Candidates of a call -/

theorem length_of_conversions? {sites : Conversion.Sites} {arguments : List (Option Encoding)}
    {parameters : List Encoding} {found : List Conversion}
    (converts : conversions? sites arguments parameters = .ok (some found)) :
    found.length = arguments.length := by
  induction arguments generalizing parameters found with
  | nil =>
    cases converts
    rfl
  | cons argument arguments ih =>
    cases parameters with
    | nil =>
      rcases Outcome.of_bind converts with ⟨rest, behind, same⟩
      cases rest with
      | none => cases same
      | some rest =>
        cases same
        rw [List.length_cons, List.length_cons, ih behind]
    | cons parameter parameters =>
      rcases Outcome.of_bind converts with ⟨conversion, _, behind⟩
      cases conversion with
      | none => cases behind
      | some conversion =>
        rcases Outcome.of_bind behind with ⟨rest, converted, same⟩
        cases rest with
        | none => cases same
        | some rest =>
          cases same
          rw [List.length_cons, List.length_cons, ih converted]

/-- A function that takes some arguments converts each of them. -/
theorem of_ofFunction? {site : Site} {arguments : List (Option Encoding)} {id : SymbolId}
    (takes : ofFunction? site arguments id = .ok (some candidate)) :
    candidate.id = id ∧ candidate.conversions.length = arguments.length := by
  rcases Outcome.of_bind takes with ⟨symbol, _, takes⟩
  split at takes
  · cases takes
  rcases Outcome.of_bind takes with ⟨parts, _, takes⟩
  split at takes
  · cases takes
  dsimp only at takes
  split at takes
  · rcases Outcome.of_bind takes with ⟨converted, converts, same⟩
    cases converted with
    | none => cases same
    | some found =>
      cases same
      exact ⟨rfl, length_of_conversions? converts⟩
  · cases takes

/-- The functions that take some arguments are among those that were asked. -/
theorem of_viable {site : Site} {arguments : List (Option Encoding)} {functions : List SymbolId}
    (asked : functions.filterMapM (ofFunction? site arguments) = .ok candidates) :
    Convert arguments.length candidates ∧ ∀ candidate ∈ candidates, candidate.id ∈ functions := by
  induction functions generalizing candidates with
  | nil =>
    cases asked
    exact ⟨fun _ member => absurd member List.not_mem_nil,
      fun _ member => absurd member List.not_mem_nil⟩
  | cons first rest ih =>
    rw [List.filterMapM_cons] at asked
    rcases Outcome.of_bind asked with ⟨taken, takes, asked⟩
    cases taken with
    | none =>
      have behind := ih asked
      exact ⟨behind.1, fun candidate member => List.mem_cons_of_mem _ (behind.2 candidate member)⟩
    | some candidate =>
      rcases Outcome.of_bind asked with ⟨others, askedBehind, same⟩
      cases same
      have behind := ih askedBehind
      have own := of_ofFunction? takes
      exact ⟨List.forall_mem_cons.mpr ⟨own.2, behind.1⟩,
        List.forall_mem_cons.mpr ⟨own.1 ▸ List.mem_cons_self .., fun other member =>
          List.mem_cons_of_mem _ (behind.2 other member)⟩⟩

end Candidate
end CppNames
