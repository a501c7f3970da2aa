import CppNames.Grammar.Declarator
import CppNames.Proofs.Tree.Part

namespace CppNames

/-!
# Bounds of arrays

The bounds of a declarator stand in brackets behind its name.  Each of them gives the type of
the declarator an array, whose length is what the parser reads from the bound.  `Bounded` says
this of one node: its type is made from some type by suffixes, and the lengths of the arrays among
them are those of the bounds in the order in which these are written.  Without parentheses in
the declarator there are no other suffixes.
-/

namespace Grammar

/-- The length that a suffix gives to an array, if it makes one. -/
def Suffix.length? : Suffix → Option (Option Nat)
  | .function .. => none
  | .array length => some length

end Grammar

namespace Tree

open Grammar (Suffix arrayLength?)

variable {ι : Type}

/-- The bounds among the elements of a declarator, up to what gives it a width or a value.  The
bound in empty brackets is absent. -/
def boundsIn : List (Tree ι) → List (Tree ι)
  | first :: second :: rest =>
    if first.isToken .openBracket then second :: boundsIn rest
    else if first.isToken .colon || first.isToken .equals then []
    else boundsIn (second :: rest)
  | _ => []

/-- The bounds that are written in a declarator. -/
def bounds (declarator : Tree ι) : List (Tree ι) := boundsIn declarator.elements

/-- A type is made from another one by suffixes that have the lengths of the bounds. -/
structure BoundedBy (declarator : Tree ι) (suffixes : List Suffix) (base : Encoding) : Prop where
  typed : declarator.type? = some (suffixes.foldr (fun suffix target => suffix.apply target) base)
  lengths : suffixes.filterMap Suffix.length? = declarator.bounds.map arrayLength?
  arrays : (∀ element ∈ declarator.elements, element.isToken .openParen = false) →
    ∀ suffix ∈ suffixes, suffix.length?.isSome = true

/-- The type of a declarator has an array for each of its bounds. -/
def Bounded (declarator : Tree ι) : Prop := ∃ suffixes base, declarator.BoundedBy suffixes base

/-! ## Numbers -/

section Strip

variable (tree : Tree ι)

@[simp] theorem type?_strip : tree.strip.type? = tree.type? := by cases tree <;> rfl

@[simp] theorem isToken_strip (kind : Token.Kind) :
    tree.strip.isToken kind = tree.isToken kind := by cases tree <;> rfl

@[simp] theorem arrayLength?_strip : arrayLength? tree.strip = arrayLength? tree := by
  cases tree <;> rfl

theorem boundsIn_map_strip (elements : List (Tree ι)) :
    boundsIn (elements.map strip) = (boundsIn elements).map strip := by
  fun_induction boundsIn elements with
  | case1 first second rest opens ih => simp [boundsIn, opens, ih]
  | case2 first second rest opens ends => simp [boundsIn, opens, ends]
  | case3 first second rest opens ends ih =>
    rw [List.map_cons] at ih
    simp [boundsIn, opens, ends, ih]
  | case4 elements short =>
    cases elements with
    | nil => rfl
    | cons first rest =>
      cases rest with
      | nil => rfl
      | cons second more => exact absurd rfl (short first second more)

theorem bounds_strip : tree.strip.bounds = tree.bounds.map strip := by
  unfold bounds
  rw [elements_strip, boundsIn_map_strip]

theorem BoundedBy.of_strip {suffixes : List Suffix} {base : Encoding}
    (bounded : tree.strip.BoundedBy suffixes base) : tree.BoundedBy suffixes base where
  typed := by
    rw [← type?_strip]
    exact bounded.typed
  lengths := by
    have same : arrayLength? ∘ strip = arrayLength? (ι := ι) := funext arrayLength?_strip
    rw [bounded.lengths, bounds_strip, List.map_map, same]
  arrays none := bounded.arrays fun element member => by
    rw [elements_strip] at member
    rcases List.mem_map.mp member with ⟨inside, among, rfl⟩
    rw [isToken_strip]
    exact none inside among

end Strip

/-! ## Bounds element by element -/

/-- Whether a tree opens the brackets of a bound, or begins what stands behind the bounds. -/
def marksBound (tree : Tree ι) : Bool :=
  [Token.Kind.openBracket, .colon, .equals].any tree.isToken

theorem marksBound_of_isLeaf {tree : Tree ι} (list : tree.isLeaf = false) :
    tree.marksBound = false := by
  cases tree with
  | leaf label token => cases list
  | nil | cell label construct name type head tail => rfl

/-- Some elements of a declarator hold bounds, whatever stands behind them. -/
def Holds (elements held : List (Tree ι)) : Prop :=
  ∀ behind, boundsIn (elements ++ behind) = held ++ boundsIn behind

theorem boundsIn_cons {first : Tree ι} (unmarked : first.marksBound = false)
    (rest : List (Tree ι)) : boundsIn (first :: rest) = boundsIn rest := by
  simp only [marksBound, List.any_cons, List.any_nil, Bool.or_false, Bool.or_eq_false_iff]
    at unmarked
  cases rest with
  | nil => rfl
  | cons second more =>
    rw [boundsIn, if_neg (by simp [unmarked.1]), if_neg (by simp [unmarked.2])]

theorem holds_of_unmarked {elements : List (Tree ι)}
    (unmarked : ∀ element ∈ elements, element.marksBound = false) : Holds elements [] := by
  intro behind
  induction elements with
  | nil => rfl
  | cons first rest ih =>
    rcases List.forall_mem_cons.mp unmarked with ⟨own, others⟩
    rw [List.cons_append, boundsIn_cons own, ih others]

theorem Holds.append {front back heldFront heldBack : List (Tree ι)} (early : Holds front heldFront)
    (late : Holds back heldBack) : Holds (front ++ back) (heldFront ++ heldBack) := by
  intro behind
  rw [List.append_assoc, early, late, List.append_assoc]

theorem holds_brackets {opening bound closing : Tree ι} (opens : opening.isToken .openBracket = true)
    (closes : closing.marksBound = false) : Holds [opening, bound, closing] [bound] := by
  intro behind
  change boundsIn (opening :: bound :: closing :: behind) = bound :: boundsIn behind
  rw [boundsIn, if_pos opens, boundsIn_cons closes]

/-- Behind a `:` or an `=` no bounds stand. -/
theorem boundsIn_ended {first : Tree ι}
    (ends : first.isToken .colon = true ∨ first.isToken .equals = true) (rest : List (Tree ι)) :
    boundsIn (first :: rest) = [] := by
  have open_ne : first.isToken .openBracket = false := by
    rcases ends with colon | equals
    · rw [isToken, eq_of_beq colon]
      rfl
    · rw [isToken, eq_of_beq equals]
      rfl
  cases rest with
  | nil => rfl
  | cons second more =>
    rw [boundsIn, if_neg (by simp [open_ne]), if_pos (by simpa using ends)]

/-- The elements that give a declarator a width or a value, if there are any. -/
def EndsBounds (elements : List (Tree ι)) : Prop :=
  ∀ first ∈ elements.head?, first.isToken .colon = true ∨ first.isToken .equals = true

theorem boundsIn_of_ends {front back : List (Tree ι)} (early : EndsBounds front)
    (late : EndsBounds back) : boundsIn (front ++ back) = [] := by
  cases front with
  | nil =>
    cases back with
    | nil => rfl
    | cons first rest => exact boundsIn_ended (late first rfl) rest
  | cons first rest => exact boundsIn_ended (early first rfl) (rest ++ back)

theorem bounds_encodedList (construct : Construct) (name type : Option Encoding)
    (elements : List Plain) :
    (encodedList construct name type elements).bounds = boundsIn elements := by
  unfold bounds
  rw [elements_encodedList]
  cases elements <;> rfl

end Tree
end CppNames
