import CppNames.Proofs.Tree.Shape
import Mathlib.Data.List.Flatten
import Mathlib.Data.List.GetD

namespace CppNames
namespace Tree

/-!
# Parts in order

The nodes of a tree in preorder are the tree itself and then the nodes of its elements, one
element after the other.  So the nodes of whatever a pass takes out of a list, in the order in
which it is taken, are a sublist of the nodes of the list.  What holds of all nodes of a list, or
of any two different ones, then holds of the parts.
-/

variable {ι : Type}

/-- The nodes of some trees, one after the other. -/
def parts (trees : List (Tree ι)) : List (Tree ι) := trees.flatMap preorder

theorem parts_cons (first : Tree ι) (rest : List (Tree ι)) :
    parts (first :: rest) = first.preorder ++ parts rest := List.flatMap_cons ..

theorem parts_sublist {few many : List (Tree ι)} (sublist : few.Sublist many) :
    (parts few).Sublist (parts many) := sublist.flatMap _

theorem preorderTail_eq (tail : Tree ι) : tail.preorderTail = parts tail.chain := by
  induction tail with
  | nil => rfl
  | leaf label token => rfl
  | cell label construct name type head tail _ ihTail =>
    rw [preorderTail, chain, parts_cons, ihTail]

/-- The nodes of a list: itself and those of its elements. -/
theorem preorder_eq {tree : Tree ι} (list : tree.isCell = true) :
    tree.preorder = tree :: parts tree.elements := by
  cases tree with
  | nil => cases list
  | leaf label token => cases list
  | cell label construct name type head tail =>
    rw [preorder, preorderTail_eq, elements, parts_cons]

theorem mem_preorder_self {tree : Tree ι} (there : tree.isNil = false) : tree ∈ tree.preorder := by
  cases tree with
  | nil => cases there
  | leaf label token => exact List.mem_singleton_self _
  | cell label construct name type head tail => exact List.mem_cons_self ..

theorem parts_elements_sublist (tree : Tree ι) : (parts tree.elements).Sublist tree.preorder := by
  cases tree with
  | nil => exact List.nil_sublist _
  | leaf label token => exact List.nil_sublist _
  | cell label construct name type head tail =>
    rw [preorder_eq rfl]
    exact List.sublist_cons_self ..

theorem preorder_sublist_of_mem {element : Tree ι} {trees : List (Tree ι)}
    (member : element ∈ trees) : element.preorder.Sublist (parts trees) := by
  have single := parts_sublist (List.singleton_sublist.mpr member)
  simpa [parts] using single

theorem parts_present_sublist (tree : Tree ι) : (parts tree.present).Sublist tree.preorder :=
  (parts_sublist List.filter_sublist).trans (parts_elements_sublist tree)

/-- The nodes of a node are nodes of the tree, in the same order. -/
theorem preorder_sublist (tree : Tree ι) :
    (∀ node ∈ tree.preorder, node.preorder.Sublist tree.preorder) ∧
      ∀ node ∈ tree.preorderTail, node.preorder.Sublist tree.preorderTail := by
  induction tree with
  | nil => exact ⟨fun _ member => absurd member List.not_mem_nil,
      fun _ member => absurd member List.not_mem_nil⟩
  | leaf label token => exact ⟨List.forall_mem_singleton.mpr (.refl _),
      fun _ member => absurd member List.not_mem_nil⟩
  | cell label construct name type head tail ihHead ihTail =>
    have both : ∀ node ∈ head.preorder ++ tail.preorderTail,
        node.preorder.Sublist (head.preorder ++ tail.preorderTail) := by
      intro node member
      rcases List.mem_append.mp member with early | late
      · exact (ihHead.1 node early).trans (List.sublist_append_left ..)
      · exact (ihTail.2 node late).trans (List.sublist_append_right ..)
    refine ⟨fun node member => ?_, both⟩
    rcases List.mem_cons.mp member with rfl | behind
    · exact .refl _
    · exact (both node behind).cons _

/-! ## Positions -/

theorem preorder_nth_sublist (tree : Tree ι) (position : Nat) :
    (tree.nth position).preorder.Sublist (parts tree.elements) := by
  rcases nth_mem_elements tree position with absent | member
  · rw [absent]
    exact List.nil_sublist _
  · exact preorder_sublist_of_mem member

theorem mem_preorder_of_nth {tree node : Tree ι} (position : Nat)
    (member : node ∈ (tree.nth position).preorder) : node ∈ tree.preorder :=
  ((preorder_nth_sublist tree position).trans (parts_elements_sublist tree)).subset member

/-- The last element stands at the last position. -/
theorem nth_length_sub_one (tree : Tree ι) : tree.nth (tree.length - 1) = tree.last := by
  rw [nth_eq_getD, last, List.getLastD_eq_getLast?, List.getLast?_eq_getElem?]
  exact List.getD_eq_getElem?_getD ..

/-- What is absent has no nodes. -/
theorem parts_filter_isNil (trees : List (Tree ι)) :
    parts (trees.filter (!·.isNil)) = parts trees := by
  induction trees with
  | nil => rfl
  | cons first rest ih =>
    cases first with
    | nil => exact ih
    | leaf label token | cell label construct name type head tail => exact congrArg (_ ++ ·) ih

theorem getD_sublist (elements : List (Tree ι)) (position : Nat) :
    ([elements.getD position nil].filter (!·.isNil)).Sublist elements := by
  by_cases inside : position < elements.length
  · rw [List.getD_eq_getElem _ _ inside]
    exact List.filter_sublist.trans (List.singleton_sublist.mpr (List.getElem_mem inside))
  · rw [List.getD_eq_default _ _ (Nat.le_of_not_lt inside)]
    exact List.nil_sublist _

theorem nth_sublist (tree : Tree ι) (position : Nat) :
    ([tree.nth position].filter (!·.isNil)).Sublist tree.elements := by
  rw [nth_eq_getD]
  exact getD_sublist _ _

/-- Two elements of a list, as far as they are there. -/
theorem pair_sublist (tree : Tree ι) {first second : Nat} (ordered : first < second) :
    ([tree.nth first, tree.nth second].filter (!·.isNil)).Sublist tree.elements := by
  rw [nth_eq_getD, nth_eq_getD]
  generalize tree.elements = elements
  induction elements generalizing first second with
  | nil => exact .refl _
  | cons element rest ih =>
    rcases Nat.exists_eq_succ_of_ne_zero (Nat.ne_zero_of_lt ordered) with ⟨second, rfl⟩
    cases first with
    | zero =>
      rw [List.getD_cons_zero, List.getD_cons_succ, List.filter_cons]
      split
      · exact (getD_sublist rest second).cons_cons element
      · exact (getD_sublist rest second).cons element
    | succ first =>
      rw [List.getD_cons_succ, List.getD_cons_succ]
      exact (ih (Nat.lt_of_succ_lt_succ ordered)).cons element

theorem pair_parts_sublist (tree : Tree ι) {first second : Nat} (ordered : first < second) :
    (parts [tree.nth first, tree.nth second]).Sublist (parts tree.elements) := by
  rw [← parts_filter_isNil]
  exact parts_sublist (tree.pair_sublist ordered)

/-- The elements of a part and a part behind it. -/
theorem present_and_part_sublist (tree : Tree ι) {first second : Nat} (ordered : first < second) :
    (parts (tree.nth first).present ++ (tree.nth second).preorder).Sublist
      (parts tree.elements) := by
  have both := tree.pair_parts_sublist ordered
  rw [parts_cons, parts_cons] at both
  refine .trans (.append ?_ (List.sublist_append_left ..)) both
  exact parts_present_sublist (tree.nth first)

/-- The parts of a function definition that are bound, in order: the words of its type, its
declarator, the initializers of a constructor, and its body. -/
theorem definition_sublist {tree : Tree ι} (declares : tree.third.isA .declarator = true)
    (braced : tree.last.isA .block = true) :
    ([tree.second, tree.third,
      if (tree.nth 3).isA .block then nil else tree.nth 3, tree.last].filter (!·.isNil)).Sublist
        tree.elements := by
  have apart : ∀ {other : Tree ι}, other.isA .declarator = true → other.isA .block = true →
      False := by
    intro other first second
    rw [isA, eq_of_beq first] at second
    cases second
  unfold second third at *
  unfold last at *
  rw [nth_eq_getD] at declares
  rw [nth_eq_getD, nth_eq_getD, nth_eq_getD]
  rcases same : tree.elements with
    _ | ⟨first, _ | ⟨word, _ | ⟨declarator, _ | ⟨members, _ | ⟨next, rest⟩⟩⟩⟩⟩
  · rw [same] at braced
    cases braced
  · rw [same] at declares
    cases declares
  · rw [same] at declares
    cases declares
  · rw [same] at declares braced
    exact (apart declares braced).elim
  · rw [same] at braced
    have isBlock : members.isA .block = true := braced
    simp only [List.getD_cons_succ, List.getD_cons_zero, isBlock, if_true, List.getLastD_cons]
    change ([word, declarator, members].filter (!·.isNil)).Sublist _
    exact List.filter_sublist.cons first
  · have behind : rest.getLastD next ∈ next :: rest := List.getLastD_mem_cons ..
    have final : [rest.getLastD next].Sublist (next :: rest) := List.singleton_sublist.mpr behind
    simp only [List.getD_cons_succ, List.getD_cons_zero, List.getLastD_cons]
    refine .cons first ?_
    split
    · change ([word, declarator, rest.getLastD next].filter (!·.isNil)).Sublist _
      exact List.filter_sublist.trans
        (((final.cons members).cons_cons declarator).cons_cons word)
    · exact List.filter_sublist.trans
        (((final.cons_cons members).cons_cons declarator).cons_cons word)

theorem definition_parts_sublist {tree : Tree ι} (declares : tree.third.isA .declarator = true)
    (braced : tree.last.isA .block = true) :
    (parts [tree.second, tree.third,
      if (tree.nth 3).isA .block then nil else tree.nth 3, tree.last]).Sublist
        (parts tree.elements) := by
  rw [← parts_filter_isNil]
  exact parts_sublist (definition_sublist declares braced)

/-! ## Functions -/

/-- A node that defines a function: a declaration with one declarator and a body. -/
def definesFunction (node : Tree ι) : Bool :=
  node.isA .declaration && node.third.isA .declarator && node.last.isA .block

/-- The parts of a node that are bound in a scope of a function: what a block, a loop or a
declarator holds, and the initializers and the body of a function that is defined. -/
def innerParts (node : Tree ι) : List (Tree ι) :=
  if node.isA .block || node.isA .forStatement || node.isA .declarator then parts node.elements
  else if node.definesFunction then (node.nth 3).preorder ++ node.last.preorder
  else []

theorem innerParts_of_isA {node : Tree ι}
    (is : node.isA .block = true ∨ node.isA .forStatement = true ∨ node.isA .declarator = true) :
    node.innerParts = parts node.elements := by
  unfold innerParts
  rw [if_pos (by simpa [or_assoc] using is)]

theorem innerParts_of_definesFunction {node : Tree ι} (defines : node.definesFunction = true) :
    node.innerParts = (node.nth 3).preorder ++ node.last.preorder := by
  have own : node.construct? = some .declaration := by
    simp only [definesFunction, Bool.and_eq_true] at defines
    exact eq_of_beq defines.1.1
  unfold innerParts isA
  rw [own, defines]
  rfl

theorem innerParts_subset (node : Tree ι) : node.innerParts ⊆ node.preorder := by
  have element (position : Nat) : (node.nth position).preorder ⊆ node.preorder :=
    ((preorder_nth_sublist node position).trans (parts_elements_sublist node)).subset
  unfold innerParts
  split
  · exact (parts_elements_sublist node).subset
  · split
    · rw [← nth_length_sub_one]
      exact List.append_subset.mpr ⟨element 3, element _⟩
    · exact List.nil_subset _

/-! ## Words of a type -/

theorem parts_append (front back : List (Tree ι)) : parts (front ++ back) = parts front ++ parts back :=
  List.flatMap_append

theorem parts_typeWords_sublist (words : Tree ι) : (parts words.typeWords).Sublist words.preorder ∧
    (parts words.typeWordsBehind).Sublist words.preorderTail := by
  induction words with
  | nil => exact ⟨.refl _, .refl _⟩
  | leaf label token => exact ⟨.refl _, .refl _⟩
  | cell label construct name type head tail ihHead ihTail =>
    have both : (parts (head.typeWords ++ tail.typeWordsBehind)).Sublist
        (head.preorder ++ tail.preorderTail) := by
      rw [parts_append]
      exact .append ihHead.1 ihTail.2
    refine ⟨?_, both⟩
    unfold typeWords
    split
    · exact .trans both (List.sublist_cons_self ..)
    · simp [parts]

/-! ## Elements behind a token -/

theorem elementBehind_mem (tree : Tree ι) (kind : Token.Kind) :
    tree.elementBehind kind = nil ∨ tree.elementBehind kind ∈ tree.elements := by
  unfold elementBehind
  cases behind : (tree.elements.dropWhile (!·.isToken kind)).drop 1 with
  | nil => exact .inl rfl
  | cons first rest =>
    have member : first ∈ (tree.elements.dropWhile (!·.isToken kind)).drop 1 := by
      rw [behind]
      exact List.mem_cons_self ..
    exact .inr ((List.dropWhile_suffix _).subset (List.mem_of_mem_drop member))

theorem preorder_elementBehind_sublist (tree : Tree ι) (kind : Token.Kind) :
    (tree.elementBehind kind).preorder.Sublist (parts tree.elements) := by
  rcases elementBehind_mem tree kind with absent | member
  · rw [absent]
    exact List.nil_sublist _
  · exact preorder_sublist_of_mem member

/-! ## Numbers of nodes -/

/-- Numbering gives the nodes of a tree consecutive numbers. -/
theorem ids_numberFrom (tree : Plain) :
    (∀ next, ∃ count, (numberFrom next tree).2 = next + count ∧
      (numberFrom next tree).1.preorder.map id = List.range' next count) ∧
    ∀ list next, ∃ count, (numberTail list next tree).2 = next + count ∧
      (numberTail list next tree).1.preorderTail.map id = List.range' next count := by
  induction tree with
  | nil => exact ⟨fun _ => ⟨0, rfl, rfl⟩, fun _ _ => ⟨0, rfl, rfl⟩⟩
  | leaf label token => exact ⟨fun _ => ⟨1, rfl, rfl⟩, fun _ _ => ⟨0, rfl, rfl⟩⟩
  | cell label construct name type head tail ihHead ihTail =>
    have parts : ∀ list next, ∃ count, (numberTail list (numberFrom next head).2 tail).2 =
        next + count ∧ ((numberFrom next head).1.preorder ++
          (numberTail list (numberFrom next head).2 tail).1.preorderTail).map id =
            List.range' next count := by
      intro list next
      rcases ihHead.1 next with ⟨first, nextFirst, idsFirst⟩
      rcases ihTail.2 list (next + first) with ⟨rest, nextRest, idsRest⟩
      refine ⟨first + rest, ?_, ?_⟩
      · rw [nextFirst, nextRest, Nat.add_assoc]
      · rw [nextFirst, List.map_append, idsFirst, idsRest, List.range'_append_1]
    constructor
    · intro next
      rcases parts next (next + 1) with ⟨count, behind, ids⟩
      refine ⟨count + 1, ?_, ?_⟩
      · rw [Nat.add_comm count, ← Nat.add_assoc]
        exact behind
      · rw [List.range'_succ]
        exact congrArg (next :: ·) ids
    · exact parts

/-- No two nodes of a numbered tree have the same number. -/
theorem nodup_ids_numbered (tree : Plain) : (tree.numbered.preorder.map id).Nodup := by
  rcases (ids_numberFrom tree).1 0 with ⟨count, _, ids⟩
  unfold numbered
  rw [ids]
  exact List.nodup_range'

end Tree
end CppNames
