import CppNames.Proofs.Carried.Tree
import CppNames.Proofs.Tree.Origin

namespace CppNames

/-!
# Nodes that stand apart

Some nodes of a tree stand apart where none of them lies inside another and they come in the
order of the tree.  What was read for such nodes was read in pieces of the text that follow one
another.  This needs a proof, since a tree may hold its tokens in another order than the text:
the storage classes of a declaration are moved to its front.  They are no part of any name,
though, and so the names of a tree that stand apart stand apart in the text as well.

The places of such names have no byte in common.  A place covers everything from the first
token of a name to its last one, so it also has to be shown that a name with several
identifiers begins in front of all of them and ends behind them.
-/

theorem Token.InOrder.sublist {few many : List Token} (inOrder : InOrder many)
    (sublist : few.Sublist many) : InOrder few where
  ordered := inOrder.ordered.sublist sublist
  nonempty token member := inOrder.nonempty token (sublist.subset member)

namespace Tree

variable {ι : Type}

/-! ## Nodes of a tree in order -/

mutual

/-- Some nodes stand in a tree one behind the other, none of them inside another. -/
inductive Apart : Tree ι → List (Tree ι) → Prop where
  | none (tree : Tree ι) : Apart tree []
  | whole (tree : Tree ι) : Apart tree [tree]
  | elements {tree : Tree ι} {nodes : List (Tree ι)} :
    EachApart tree.elements nodes → Apart tree nodes

/-- Some nodes stand in the trees of a list one behind the other, none of them inside another. -/
inductive EachApart : List (Tree ι) → List (Tree ι) → Prop where
  | nil : EachApart [] []
  | cons {tree : Tree ι} {trees front back : List (Tree ι)} :
    Apart tree front → EachApart trees back → EachApart (tree :: trees) (front ++ back)

end

namespace EachApart

variable {trees behind nodes nodesBehind : List (Tree ι)} {tree : Tree ι}

theorem none (trees : List (Tree ι)) : EachApart trees [] := by
  induction trees with
  | nil => exact .nil
  | cons tree trees ih => exact .cons (.none tree) ih

theorem single (apart : Apart tree nodes) : EachApart [tree] nodes := by
  have whole := EachApart.cons apart .nil
  rwa [List.append_nil] at whole

theorem apart_of_single (apart : EachApart [tree] nodes) : Apart tree nodes := by
  cases apart with
  | cons first rest =>
    cases rest
    rwa [List.append_nil]

theorem append (front : EachApart trees nodes) (back : EachApart behind nodesBehind) :
    EachApart (trees ++ behind) (nodes ++ nodesBehind) := by
  induction trees generalizing nodes with
  | nil =>
    cases front
    exact back
  | cons tree trees ih =>
    cases front with
    | cons first rest =>
      rw [List.append_assoc]
      exact .cons first (ih rest)

theorem split (apart : EachApart (trees ++ behind) nodes) :
    ∃ front back, nodes = front ++ back ∧ EachApart trees front ∧ EachApart behind back := by
  induction trees generalizing nodes with
  | nil => exact ⟨[], nodes, rfl, .nil, apart⟩
  | cons tree trees ih =>
    cases apart with
    | @cons _ _ first _ own rest =>
      rcases ih rest with ⟨front, back, rfl, early, late⟩
      exact ⟨first ++ front, back, (List.append_assoc ..).symm, .cons own early, late⟩

theorem of_sublist {few many : List (Tree ι)} (sublist : few.Sublist many)
    (apart : EachApart few nodes) : EachApart many nodes := by
  induction sublist generalizing nodes with
  | slnil => exact apart
  | cons tree _ ih => exact .cons (.none tree) (ih apart)
  | cons_cons tree _ ih =>
    cases apart with
    | cons first rest => exact .cons first (ih rest)

/-- Nothing that is there stands in a tree that is absent. -/
theorem filter_isNil (apart : EachApart trees nodes) (there : ∀ node ∈ nodes, node.isNil = false) :
    EachApart (trees.filter (!·.isNil)) nodes := by
  induction trees generalizing nodes with
  | nil => exact apart
  | cons tree trees ih =>
    cases apart with
    | cons first rest =>
      rcases List.forall_mem_append.mp there with ⟨early, late⟩
      rw [List.filter_cons]
      split
      · exact .cons first (ih rest late)
      · next absent =>
        cases tree with
        | nil =>
          cases first with
          | none => exact ih rest late
          | whole => exact absurd (early .nil (List.mem_singleton_self _)) Bool.noConfusion
          | elements inside =>
            cases inside
            exact ih rest late
        | leaf label token => exact absurd rfl absent
        | cell label construct name type head tail => exact absurd rfl absent

end EachApart

/-- What stands in the elements at a position of some lists stands in the lists. -/
theorem EachApart.of_map_nth {trees nodes : List (Tree ι)} {position : Nat}
    (apart : EachApart (trees.map (·.nth position)) nodes)
    (there : ∀ node ∈ nodes, node.isNil = false) : EachApart trees nodes := by
  induction trees generalizing nodes with
  | nil => exact apart
  | cons tree trees ih =>
    cases apart with
    | cons first rest =>
      rcases List.forall_mem_append.mp there with ⟨early, late⟩
      refine .cons (.elements ?_) (ih rest late)
      exact ((EachApart.single first).filter_isNil early).of_sublist (tree.nth_sublist position)

mutual

/-- What stands in nodes that stand apart stands apart. -/
theorem Apart.trans {tree : Tree ι} {parts nodes : List (Tree ι)} :
    Apart tree parts → EachApart parts nodes → Apart tree nodes
  | .none _, inside => by
    cases inside
    exact .none tree
  | .whole _, inside => inside.apart_of_single
  | .elements apart, inside => .elements (apart.trans inside)

theorem EachApart.trans {trees parts nodes : List (Tree ι)} :
    EachApart trees parts → EachApart parts nodes → EachApart trees nodes
  | .nil, inside => inside
  | .cons first rest, inside => by
    rcases inside.split with ⟨front, back, rfl, early, late⟩
    exact .cons (first.trans early) (rest.trans late)

end

mutual

/-- The nodes in nodes that stand apart are different nodes of the tree. -/
theorem Apart.parts_sublist {tree : Tree ι} {nodes : List (Tree ι)} :
    Apart tree nodes → (parts nodes).Sublist tree.preorder
  | .none _ => List.nil_sublist _
  | .whole _ => by simp [parts]
  | .elements apart => apart.parts_sublist.trans (parts_elements_sublist tree)

theorem EachApart.parts_sublist {trees nodes : List (Tree ι)} :
    EachApart trees nodes → (parts nodes).Sublist (parts trees)
  | .nil => .refl _
  | .cons first rest => by
    rw [parts_append, parts_cons]
    exact first.parts_sublist.append rest.parts_sublist

end

theorem Apart.mem_preorder {tree node : Tree ι} {nodes : List (Tree ι)} (apart : Apart tree nodes)
    (member : node ∈ nodes) (there : node.isNil = false) : node ∈ tree.preorder := by
  apply apart.parts_sublist.subset
  exact (preorder_sublist_of_mem member).subset (mem_preorder_self there)

theorem size_le_of_mem_chain {rest element : Tree ι} (member : element ∈ rest.chain) :
    element.size ≤ rest.size := by
  induction rest with
  | nil => exact absurd member List.not_mem_nil
  | leaf label token =>
    rw [List.mem_singleton.mp member]
    exact Nat.zero_le _
  | cell label construct name type head tail _ ih =>
    rw [size]
    rcases List.mem_cons.mp member with same | inside
    · rw [same]
      omega
    · have small := ih inside
      omega

theorem size_lt_of_mem_elements {tree element : Tree ι} (member : element ∈ tree.elements) :
    element.size < tree.size := by
  cases tree with
  | nil | leaf label token => exact absurd member List.not_mem_nil
  | cell label construct name type head tail =>
    rw [size]
    rcases List.mem_cons.mp member with same | inside
    · rw [same]
      omega
    · have small := size_le_of_mem_chain inside
      omega

mutual

theorem Apart.size_le {tree node : Tree ι} {nodes : List (Tree ι)} :
    Apart tree nodes → node ∈ nodes → node.size ≤ tree.size
  | .none _, member => absurd member List.not_mem_nil
  | .whole _, member => by rw [List.mem_singleton.mp member]
  | .elements apart, member => by
    rcases apart.exists_size_le member with ⟨element, inside, small⟩
    exact Nat.le_trans small (Nat.le_of_lt (size_lt_of_mem_elements inside))

theorem EachApart.exists_size_le {node : Tree ι} {trees nodes : List (Tree ι)} :
    EachApart trees nodes → node ∈ nodes → ∃ tree ∈ trees, node.size ≤ tree.size
  | .nil, member => absurd member List.not_mem_nil
  | .cons first rest, member => by
    rcases List.mem_append.mp member with early | late
    · exact ⟨_, List.mem_cons_self .., first.size_le early⟩
    · rcases rest.exists_size_le late with ⟨tree, inside, small⟩
      exact ⟨tree, List.mem_cons_of_mem _ inside, small⟩

end

mutual

theorem Apart.strip {tree : Tree ι} {nodes : List (Tree ι)} :
    Apart tree nodes → Apart tree.strip (nodes.map Tree.strip)
  | .none _ => .none _
  | .whole _ => .whole _
  | .elements apart => .elements (by rw [elements_strip]; exact apart.strip)

theorem EachApart.strip {trees nodes : List (Tree ι)} :
    EachApart trees nodes → EachApart (trees.map Tree.strip) (nodes.map Tree.strip)
  | .nil => .nil
  | .cons first rest => by
    rw [List.map_append]
    exact .cons first.strip rest.strip

end

/-- What stands in the words of a type stands in the list of the words. -/
theorem eachApart_typeWords (words : Tree ι) : (∀ nodes, EachApart words.typeWords nodes →
      Apart words nodes) ∧
    ∀ nodes, EachApart words.typeWordsBehind nodes → EachApart words.chain nodes := by
  induction words with
  | nil =>
    refine ⟨fun nodes apart => ?_, fun nodes apart => apart⟩
    cases apart
    exact .none _
  | leaf label token =>
    refine ⟨fun nodes apart => apart.apart_of_single, fun nodes apart => ?_⟩
    cases apart
    exact .none _
  | cell label construct name type head tail ihHead ihTail =>
    have both : ∀ nodes, EachApart (head.typeWords ++ tail.typeWordsBehind) nodes →
        EachApart (head :: tail.chain) nodes := by
      intro nodes apart
      rcases apart.split with ⟨front, back, rfl, early, late⟩
      exact .cons (ihHead.1 front early) (ihTail.2 back late)
    refine ⟨fun nodes apart => ?_, both⟩
    unfold typeWords at apart
    split at apart
    · exact .elements (both nodes apart)
    · exact apart.apart_of_single

/-! ## Names in the text -/

open Grammar (grouped)
open Token (InOrder)

/-- A name as it stands in a tree: an identifier, or a list that begins with a token that a name
can begin with. -/
def IsLed (node : Tree ι) : Prop :=
  node.isToken .identifier = true ∨ (node.isA .name = true ∧ node.head.leadsName = true)

theorem leadsName_eq {tree : Tree ι} (leads : tree.leadsName = true) :
    ∃ label token, tree = leaf label token ∧ token.kind.isDeclSpecifier = false := by
  rcases List.any_eq_true.mp leads with ⟨kind, among, is⟩
  have plain : ∀ kind ∈ [Token.Kind.identifier, .colonColon, .tilde, .kwOperator],
      kind.isDeclSpecifier = false := by decide
  cases tree with
  | leaf label token =>
    have same : token.kind = kind := Option.some.inj (eq_of_beq is)
    exact ⟨label, token, rfl, same ▸ plain kind among⟩
  | nil | cell label construct name type head tail => cases is

/-- A name has a token that is no storage class. -/
theorem IsLed.exists_token {node : Tree ι} (led : node.IsLed) :
    ∃ token ∈ node.tokens, token.kind.isDeclSpecifier = false := by
  cases node with
  | nil => rcases led with is | ⟨is, _⟩ <;> cases is
  | leaf label token =>
    refine ⟨token, List.mem_singleton_self _, ?_⟩
    rcases led with is | ⟨is, _⟩
    · have same : token.kind = .identifier := Option.some.inj (eq_of_beq is)
      rw [same]
      rfl
    · cases is
  | cell label construct name type head tail =>
    rcases led with is | ⟨_, leads⟩
    · cases is
    · rcases leadsName_eq leads with ⟨own, token, same, plain⟩
      have first : head = leaf own token := same
      rw [first]
      exact ⟨token, List.mem_cons_self .., plain⟩

@[simp] theorem isLed_strip (node : Tree ι) : node.strip.IsLed ↔ node.IsLed := by simp [IsLed]

/-- Some trees were read in pieces of a text, one behind the other. -/
def Segmented (nodes : List Plain) (read : List Token) : Prop :=
  ∃ segments, List.Forall₂ Spells nodes segments ∧ segments.flatten.Sublist read

namespace Segmented

variable {nodes behind : List Plain} {read readBehind : List Token}

theorem nil (read : List Token) : Segmented [] read := ⟨[], .nil, List.nil_sublist _⟩

theorem single {tree : Plain} (spells : tree.Spells read) : Segmented [tree] read :=
  ⟨[read], .cons spells .nil, by simp⟩

theorem append (front : Segmented nodes read) (back : Segmented behind readBehind) :
    Segmented (nodes ++ behind) (read ++ readBehind) := by
  rcases front with ⟨early, spellsEarly, sublistEarly⟩
  rcases back with ⟨late, spellsLate, sublistLate⟩
  refine ⟨early ++ late, List.rel_append spellsEarly spellsLate, ?_⟩
  rw [List.flatten_append]
  exact sublistEarly.append sublistLate

theorem of_sublist {more : List Token} (segmented : Segmented nodes read)
    (sublist : read.Sublist more) : Segmented nodes more := by
  rcases segmented with ⟨segments, spells, inside⟩
  exact ⟨segments, spells, inside.trans sublist⟩

/-- Each of the trees was read in a piece of the text. -/
theorem exists_of_mem (segmented : Segmented nodes read) {node : Plain} (member : node ∈ nodes) :
    ∃ segment, node.Spells segment ∧ segment.Sublist read := by
  rcases segmented with ⟨segments, spells, inside⟩
  induction spells generalizing read with
  | nil => exact absurd member List.not_mem_nil
  | cons own _ ih =>
    rw [List.flatten_cons] at inside
    rcases List.mem_cons.mp member with rfl | behind
    · exact ⟨_, own, (List.sublist_append_left ..).trans inside⟩
    · exact ih behind ((List.sublist_append_right ..).trans inside)

end Segmented

/-- What stands in grouped words stands in the words. -/
theorem eachApart_of_grouped {words nodes : List Plain} (apart : Apart (grouped words) nodes)
    (led : ∀ node ∈ nodes, node.IsLed) : EachApart words nodes := by
  have several : Apart (seq words) nodes → EachApart words nodes := by
    intro apart
    cases apart with
    | none => exact .none _
    | whole =>
      have impossible := led _ (List.mem_singleton_self _)
      cases words with
      | nil => rcases impossible with is | ⟨is, _⟩ <;> cases is
      | cons word rest => rcases impossible with is | ⟨is, _⟩ <;> cases is
    | elements inside =>
      rwa [elements_seq] at inside
  unfold grouped at apart
  split at apart
  · exact .single apart
  · exact several apart

theorem tokens_chain_sublist (rest : Tree ι) :
    (rest.chain.flatMap tokens).Sublist rest.tokens := by
  induction rest with
  | nil => exact .refl _
  | leaf label token => exact List.nil_sublist _
  | cell label construct name type head tail _ ih =>
    rw [chain, List.flatMap_cons]
    exact .append (.refl _) ih

theorem tokens_elements_sublist (tree : Tree ι) :
    (tree.elements.flatMap tokens).Sublist tree.tokens := by
  cases tree with
  | nil => exact .refl _
  | leaf label token => exact List.nil_sublist _
  | cell label construct name type head tail =>
    rw [elements, List.flatMap_cons]
    exact .append (.refl _) (tokens_chain_sublist tail)

mutual

/-- Nodes that stand apart hold different tokens. -/
theorem Apart.tokens_sublist {tree : Tree ι} {nodes : List (Tree ι)} :
    Apart tree nodes → (nodes.flatMap tokens).Sublist tree.tokens
  | .none _ => List.nil_sublist _
  | .whole _ => by simp
  | .elements apart => apart.tokens_sublist.trans (tokens_elements_sublist tree)

theorem EachApart.tokens_sublist {trees nodes : List (Tree ι)} :
    EachApart trees nodes → (nodes.flatMap tokens).Sublist (trees.flatMap tokens)
  | .nil => .refl _
  | .cons first rest => by
    rw [List.flatMap_append, List.flatMap_cons]
    exact first.tokens_sublist.append rest.tokens_sublist

end

/-- Storage classes are no part of a name. -/
theorem Apart.eq_nil_of_storage {tree : Tree ι} {nodes : List (Tree ι)} (apart : Apart tree nodes)
    (led : ∀ node ∈ nodes, node.IsLed)
    (storage : ∀ token ∈ tree.tokens, token.kind.isDeclSpecifier = true) : nodes = [] := by
  cases nodes with
  | nil => rfl
  | cons node rest =>
    rcases (led node (List.mem_cons_self ..)).exists_token with ⟨token, member, plain⟩
    have inside : token ∈ tree.tokens := by
      apply apart.tokens_sublist.subset
      exact List.mem_flatMap.mpr ⟨node, List.mem_cons_self .., member⟩
    rw [storage token inside] at plain
    cases plain

/-- Names that stand in a list are the list itself or stand in its elements. -/
theorem segmented_of_chain {tree : Plain} {read : List Token} (list : tree.isCell = true)
    (spells : tree.Spells read)
    (inside : ∀ nodes, EachApart tree.chain nodes → (∀ node ∈ nodes, node.IsLed) →
      Segmented nodes read) :
    (∀ nodes, Apart tree nodes → (∀ node ∈ nodes, node.IsLed) → Segmented nodes read) ∧
      ∀ nodes, EachApart tree.chain nodes → (∀ node ∈ nodes, node.IsLed) →
        Segmented nodes read := by
  refine ⟨fun nodes apart led => ?_, inside⟩
  cases apart with
  | none => exact .nil _
  | whole => exact .single spells
  | elements apart =>
    cases tree with
    | nil | leaf label token => cases list
    | cell label construct name type head tail => exact inside nodes apart led

mutual

/-- Names that stand apart in a tree were read one behind the other.  The second part says the
same of the tail of a list, whose cells are no nodes. -/
theorem Spells.segmented {tree : Plain} {read : List Token} :
    Spells tree read → (∀ nodes, Apart tree nodes → (∀ node ∈ nodes, node.IsLed) →
        Segmented nodes read) ∧
      ∀ nodes, EachApart tree.chain nodes → (∀ node ∈ nodes, node.IsLed) → Segmented nodes read
  | .nil => by
    refine ⟨fun nodes apart led => ?_, fun nodes apart _ => ?_⟩
    · rw [apart.eq_nil_of_storage led fun token member => absurd member List.not_mem_nil]
      exact .nil _
    · cases apart
      exact .nil _
  | .leaf label token => by
    refine ⟨fun nodes apart _ => ?_, fun nodes apart led => ?_⟩
    · cases apart with
      | none => exact .nil _
      | whole => exact .single (.leaf label token)
      | elements inside =>
        cases inside
        exact .nil _
    · have absent := apart.apart_of_single
      rw [absent.eq_nil_of_storage led fun token member => absurd member List.not_mem_nil]
      exact .nil _
  | .cell head tail => by
    refine segmented_of_chain rfl (.cell head tail) fun nodes apart led => ?_
    cases apart with
    | cons first rest =>
      rcases List.forall_mem_append.mp led with ⟨early, late⟩
      exact (head.segmented.1 _ first early).append (tail.segmented.2 _ rest late)
  | .typename lost head tail => by
    refine segmented_of_chain rfl (.typename lost head tail) fun nodes apart led => ?_
    cases apart with
    | cons first rest =>
      rcases List.forall_mem_append.mp led with ⟨early, late⟩
      have behind := tail.segmented.2 _ rest late
      exact (head.segmented.1 _ first early).append (behind.of_sublist (List.sublist_cons_self ..))
  | .typedefDecl head words tail => by
    refine segmented_of_chain rfl (.typedefDecl head words tail) fun nodes apart led => ?_
    cases apart with
    | cons first rest =>
      cases rest with
      | cons second rest =>
        rcases List.forall_mem_append.mp led with ⟨early, led⟩
        rcases List.forall_mem_append.mp led with ⟨middle, late⟩
        have inWords := words.segmented _ (eachApart_of_grouped second middle) middle
        have behind := inWords.append (tail.segmented.2 _ rest late)
        exact (head.segmented.1 _ first early).append behind
  | .typeId words tail => by
    refine segmented_of_chain rfl (.typeId words tail) fun nodes apart led => ?_
    cases apart with
    | cons first rest =>
      rcases List.forall_mem_append.mp led with ⟨early, late⟩
      have inWords := words.segmented _ (eachApart_of_grouped first early) early
      exact inWords.append (tail.segmented.2 _ rest late)
  | .moved which words tail => by
    refine segmented_of_chain rfl (.moved which words tail) fun nodes apart led => ?_
    cases apart with
    | cons first rest =>
      cases rest with
      | cons second rest =>
        rcases List.forall_mem_append.mp led with ⟨early, led⟩
        rcases List.forall_mem_append.mp led with ⟨middle, late⟩
        have inWords := words.segmented _ (eachApart_of_grouped second middle) middle
        rw [first.eq_nil_of_storage early words.isDeclSpecifier, List.nil_append]
        exact inWords.append (tail.segmented.2 _ rest late)

theorem Interleaves.segmented {storage mixed : List Token} {words : List Plain} :
    Interleaves storage words mixed → ∀ nodes, EachApart words nodes →
      (∀ node ∈ nodes, node.IsLed) → Segmented nodes mixed
  | .nil, nodes, apart, _ => by
    cases apart
    exact .nil _
  | .storage _ rest, nodes, apart, led =>
    (rest.segmented nodes apart led).of_sublist (List.sublist_cons_self ..)
  | .word _ word rest, nodes, apart, led => by
    cases apart with
    | cons first behind =>
      rcases List.forall_mem_append.mp led with ⟨early, late⟩
      exact (word.segmented.1 _ first early).append (rest.segmented _ behind late)

end

/-! ## Names in order -/

/-- Every token of one tree stands in front of every token of another. -/
def Before (left right : Tree ι) : Prop :=
  ∀ first ∈ left.tokens, ∀ second ∈ right.tokens, first.span.stop ≤ second.pos

@[simp] theorem before_strip (left right : Tree ι) :
    Before left.strip right.strip ↔ Before left right := by simp [Before]

theorem mem_flatten_of_spells {nodes : List Plain} {segments : List (List Token)}
    (spells : List.Forall₂ Spells nodes segments) :
    ∀ node ∈ nodes, ∀ token ∈ node.tokens, token ∈ segments.flatten := by
  induction spells with
  | nil => exact fun node member => absurd member List.not_mem_nil
  | cons own _ ih =>
    rw [List.flatten_cons]
    intro node member token inside
    rcases List.mem_cons.mp member with rfl | behind
    · exact List.mem_append_left _ (own.subperm.subset inside)
    · exact List.mem_append_right _ (ih node behind token inside)

theorem pairwise_before_of_spells {nodes : List Plain} {segments : List (List Token)}
    (spells : List.Forall₂ Spells nodes segments) (inOrder : InOrder segments.flatten) :
    nodes.Pairwise Before := by
  induction spells with
  | nil => exact .nil
  | cons own rest ih =>
    rw [List.flatten_cons] at inOrder
    rcases List.pairwise_append.mp inOrder.ordered with ⟨_, _, across⟩
    refine .cons ?_ (ih (inOrder.sublist (List.sublist_append_right ..)))
    intro later member first inFirst second inSecond
    exact across first (own.subperm.subset inFirst) second
      (mem_flatten_of_spells rest later member second inSecond)

/-- Names that stand apart in a tree follow one another in the text. -/
theorem Segmented.pairwise_before {nodes : List Plain} {read : List Token}
    (segmented : Segmented nodes read) (inOrder : InOrder read) : nodes.Pairwise Before := by
  rcases segmented with ⟨segments, spells, inside⟩
  exact pairwise_before_of_spells spells (inOrder.sublist inside)

end Tree
end CppNames
