import CppNames.Proofs.Tree.Shape

namespace CppNames

/-!
# How deep the lists of a tree are nested

Lists are nested inside one another through their elements; the cells of one list are no
nesting.  The parser counts a level for most constructs that may hold one of their own kind.
`Construct.isUncounted` lists those it lets nest freely: types, parameters, and conditional
expressions, whose middle operand is no level deeper.  A chain of operators takes a level for
each of its links, but gives them back in its end, so chains may nest up to the limit at each
level anew.

A tree `Rises` by a number above what some room for levels allows.  Every level that is still
free, and every list that counts for itself on the way down, may bring a fixed number of lists
with it; what a tree has beyond that is its rise.  Building a list around trees adds one to their
rise, a level of nesting or a list that counts for itself takes all of it away.  A `Tally` says
which lists count for themselves: the uncounted ones in any case, and the links of chains either
too, or not, and then a chain rises by one for each of them.
-/

/-- Whether the parser lets a construct hold another of its kind without counting a level. -/
def Construct.isUncounted : Construct → Bool
  | .typeId | .parameterDeclaration | .condExpr => true
  | _ => false

/-- Whether a construct is a link of a chain of operators. -/
def Construct.isLink : Construct → Bool
  | .arrayExpr | .funcallExpr | .dotMemberExpr | .arrowMemberExpr | .postfixExpr => true
  | .infixExpr | .commaExpr => true
  | _ => false

/-- Which lists count for themselves, beside the levels of nesting. -/
inductive Tally where
  | uncounted
  | withLinks

namespace Tally

/-- Whether the lists of a construct count for themselves. -/
def counts : Tally → Construct → Bool
  | uncounted, construct => construct.isUncounted
  | withLinks, construct => construct.isUncounted || construct.isLink

/-- How far a chain may rise where there is some room. -/
def links : Tally → Nat → Nat
  | uncounted, room => room
  | withLinks, _ => 0

theorem counts_of_isUncounted (tally : Tally) {construct : Construct}
    (free : construct.isUncounted = true) : tally.counts construct = true := by
  cases tally with
  | uncounted => exact free
  | withLinks => exact Bool.or_eq_true_iff.mpr (.inl free)

theorem links_mono (tally : Tally) {less room : Nat} (le : less ≤ room) :
    tally.links less ≤ tally.links room := by
  cases tally with
  | uncounted => exact le
  | withLinks => exact Nat.le_refl 0

end Tally

namespace Tree

variable {ι : Type}

mutual

/-- How many lists of the counted constructs are nested inside one another at most. -/
def nesting (counts : Construct → Bool) : Tree ι → Nat
  | nil => 0
  | leaf _ _ => 0
  | cell _ construct _ _ head tail =>
    (counts construct).toNat + max (nesting counts head) (nestingBehind counts tail)

/-- The same for the elements behind the first one.  The cells of a tail are no lists of
their own. -/
def nestingBehind (counts : Construct → Bool) : Tree ι → Nat
  | nil => 0
  | leaf _ _ => 0
  | cell _ _ _ _ head tail => max (nesting counts head) (nestingBehind counts tail)

end

/-- How many lists are nested inside one another. -/
def nestedLists (tree : Tree ι) : Nat := tree.nesting fun _ => true

/-- How many lists that count for themselves are nested inside one another. -/
def tallied (tally : Tally) (tree : Tree ι) : Nat := tree.nesting tally.counts

/-! ## Nesting of built trees -/

section Build

variable {counts : Construct → Bool} {trees : List Plain} {bound : Nat}

theorem nesting_le_nestingBehind_seq {tree : Plain} (member : tree ∈ trees) :
    tree.nesting counts ≤ (seq trees).nestingBehind counts := by
  induction trees with
  | nil => exact absurd member List.not_mem_nil
  | cons first rest ih =>
    change _ ≤ max (first.nesting counts) ((seq rest).nestingBehind counts)
    rcases List.mem_cons.mp member with rfl | behind
    · exact Nat.le_max_left _ _
    · exact Nat.le_trans (ih behind) (Nat.le_max_right _ _)

theorem nestingBehind_seq_le (all : ∀ tree ∈ trees, tree.nesting counts ≤ bound) :
    (seq trees).nestingBehind counts ≤ bound := by
  induction trees with
  | nil => exact Nat.zero_le _
  | cons first rest ih =>
    rcases List.forall_mem_cons.mp all with ⟨head, tail⟩
    exact Nat.max_le.mpr ⟨head, ih tail⟩

theorem nesting_encodedList (counts : Construct → Bool) (construct : Construct)
    (name type : Option Encoding) (trees : List Plain) :
    (encodedList construct name type trees).nesting counts =
      (counts construct).toNat + (seq trees).nestingBehind counts := by
  cases trees with
  | nil => rfl
  | cons first rest => rfl

theorem nesting_seq_le (counts : Construct → Bool) (trees : List Plain) :
    (seq trees).nesting counts ≤ 1 + (seq trees).nestingBehind counts := by
  cases trees with
  | nil => exact Nat.zero_le _
  | cons first rest => exact Nat.add_le_add_right (Bool.toNat_le _) _

theorem nestingBehind_seq_le_nesting (trees : List Plain) :
    (seq trees).nestingBehind counts ≤ (seq trees).nesting counts := by
  cases trees with
  | nil => exact Nat.zero_le _
  | cons first rest => exact Nat.le_add_left _ _

end Build

/-! ## Labels -/

mutual

theorem nesting_strip (counts : Construct → Bool) : ∀ tree : Tree ι,
    tree.strip.nesting counts = tree.nesting counts
  | nil => rfl
  | leaf _ _ => rfl
  | cell _ construct _ _ head tail => by
    rw [strip, nesting, nesting, nesting_strip counts head, nestingBehind_strip counts tail]

theorem nestingBehind_strip (counts : Construct → Bool) : ∀ tree : Tree ι,
    tree.strip.nestingBehind counts = tree.nestingBehind counts
  | nil => rfl
  | leaf _ _ => rfl
  | cell _ _ _ _ head tail => by
    rw [strip, nestingBehind, nestingBehind, nesting_strip counts head,
      nestingBehind_strip counts tail]

end

/-- Numbering changes no nesting. -/
theorem nesting_numbered (counts : Construct → Bool) (tree : Plain) :
    tree.numbered.nesting counts = tree.nesting counts := by
  rw [← nesting_strip counts tree.numbered, strip_numbered]

/-! ## Rises -/

/-- How many lists a level of nesting, or a list that counts for itself, may bring with it. -/
def perLevel (tally : Tally) (limit : Nat) : Nat := 3 * tally.links limit + 8

/-- A tree has a number of lists at most above what some room and the lists that count for
themselves allow. -/
def Rises (tally : Tally) (limit room height : Nat) (tree : Plain) : Prop :=
  tree.nestedLists ≤ perLevel tally limit * (room + tree.tallied tally) + height

/-- All trees of a list rise by a number at most. -/
def AllRise (tally : Tally) (limit room height : Nat) (trees : List Plain) : Prop :=
  ∀ tree ∈ trees, Rises tally limit room height tree

variable {tally : Tally} {limit room less height more : Nat} {tree : Plain}
  {trees others : List Plain}

theorem rises_nil : Rises tally limit room height nil := Nat.zero_le _

/-- A tree that is a token. -/
def IsToken (tree : Plain) : Prop := ∃ token, tree = ofToken token

theorem IsToken.rises (token : IsToken tree) : Rises tally limit room height tree := by
  rcases token with ⟨token, rfl⟩
  exact Nat.zero_le _

theorem Rises.mono (rises : Rises tally limit room height tree) (le : height ≤ more) :
    Rises tally limit room more tree :=
  Nat.le_trans rises (Nat.add_le_add_left le _)

/-- What rises above less room does not rise above more, unless it rises by more than a level
may bring. -/
theorem Rises.outer (rises : Rises tally limit less height tree)
    (low : height ≤ perLevel tally limit)
    (smaller : less < room) : Rises tally limit room more tree := by
  unfold Rises at rises ⊢
  have level : perLevel tally limit * (less + tree.tallied tally) + perLevel tally limit ≤
      perLevel tally limit * (room + tree.tallied tally) := by
    rw [← Nat.mul_succ]
    exact Nat.mul_le_mul_left _ (by omega)
  omega

theorem allRise_nil : AllRise tally limit room height [] :=
  fun _ member => absurd member List.not_mem_nil

theorem AllRise.cons (first : Rises tally limit room height tree)
    (rest : AllRise tally limit room height trees) :
    AllRise tally limit room height (tree :: trees) :=
  List.forall_mem_cons.mpr ⟨first, rest⟩

theorem Rises.single (rises : Rises tally limit room height tree) :
    AllRise tally limit room height [tree] :=
  .cons rises allRise_nil

theorem AllRise.append (front : AllRise tally limit room height trees)
    (back : AllRise tally limit room height others) :
    AllRise tally limit room height (trees ++ others) :=
  List.forall_mem_append.mpr ⟨front, back⟩

theorem AllRise.mono (all : AllRise tally limit room height trees) (le : height ≤ more) :
    AllRise tally limit room more trees :=
  fun tree member => (all tree member).mono le

theorem AllRise.outer (all : AllRise tally limit less height trees)
    (low : height ≤ perLevel tally limit) (smaller : less < room) :
    AllRise tally limit room more trees :=
  fun tree member => (all tree member).outer low smaller

/-- The lists inside a list, measured by its own lists that count for themselves. -/
theorem AllRise.behind (all : AllRise tally limit room height trees) {counted : Nat}
    (holds : (seq trees).nestingBehind tally.counts ≤ counted) :
    (seq trees).nestingBehind (fun _ => true) ≤
      perLevel tally limit * (room + counted) + height := by
  refine nestingBehind_seq_le fun tree member => ?_
  have inside : tree.tallied tally ≤ counted :=
    Nat.le_trans (nesting_le_nestingBehind_seq member) holds
  have scaled := Nat.mul_le_mul_left (perLevel tally limit) (Nat.add_le_add_left inside room)
  exact Nat.le_trans (all tree member) (Nat.add_le_add_right scaled _)

theorem AllRise.rises_seq (all : AllRise tally limit room height trees) :
    Rises tally limit room (height + 1) (seq trees) := by
  have lists := nesting_seq_le (fun _ => true) trees
  have behind := all.behind (nestingBehind_seq_le_nesting trees)
  unfold Rises nestedLists tallied
  omega

theorem AllRise.rises_encodedList (all : AllRise tally limit room height trees)
    (construct : Construct) (name type : Option Encoding) :
    Rises tally limit room (height + 1) (encodedList construct name type trees) := by
  have lists := nesting_encodedList (fun _ => true) construct name type trees
  have counted := nesting_encodedList tally.counts construct name type trees
  have behind := all.behind (counted ▸ Nat.le_add_left _ _)
  unfold Rises nestedLists tallied
  rw [lists]
  have one := Bool.toNat_le true
  omega

theorem AllRise.rises_list (all : AllRise tally limit room height trees) (construct : Construct) :
    Rises tally limit room (height + 1) (list construct trees) :=
  all.rises_encodedList construct none none

/-- A list that counts for itself takes the rise of its elements away. -/
theorem AllRise.rises_counted (all : AllRise tally limit room height trees)
    {construct : Construct} (counts : tally.counts construct = true) (name type : Option Encoding)
    (low : height < perLevel tally limit) :
    Rises tally limit room 0 (encodedList construct name type trees) := by
  have lists := nesting_encodedList (fun _ => true) construct name type trees
  have counted := nesting_encodedList tally.counts construct name type trees
  have behind := all.behind (Nat.le_refl _)
  have level := Nat.mul_succ (perLevel tally limit)
    (room + (Tree.seq trees).nestingBehind tally.counts)
  rw [counts] at counted
  unfold Rises nestedLists tallied
  rw [lists, counted]
  have regroup : room + (true.toNat + (Tree.seq trees).nestingBehind tally.counts) =
      (room + (Tree.seq trees).nestingBehind tally.counts).succ := by
    change room + (1 + _) = _ + 1
    omega
  rw [regroup, level]
  have one : true.toNat = 1 := rfl
  omega

end Tree
end CppNames
