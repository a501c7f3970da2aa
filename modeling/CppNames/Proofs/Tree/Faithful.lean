import CppNames.Proofs.Tree.Spelling
import CppNames.Proofs.Tree.Writer

namespace CppNames
namespace Tree

/-!
# Trees that hold what was read

A tree spells at least as many pieces as it holds, and where the pieces agree nothing was
lost.  Nothing was moved either: a storage class that was read behind a word of a type comes
in front of it in the tree, and the first token of a word is no storage class, so the pieces
differ there.  Hence written text is read as the source only if the tree holds its very
tokens.
-/

open Grammar (grouped)

/-! ## Counting pieces -/

theorem flat_append (front back : List Token) : flat (front ++ back) = flat front ++ flat back := by
  simp [flat]

theorem flat_cons (token : Token) (rest : List Token) :
    flat (token :: rest) = pieces token.shown ++ flat rest := by
  simp [flat]

/-- The first piece of a token is a storage class if the token is. -/
theorem pieces_shown (token : Token) : ∃ first rest, pieces token.shown = first :: rest ∧
    first.1.isDeclSpecifier = token.kind.isDeclSpecifier := by
  unfold Token.shown
  generalize token.kind = kind
  cases kind
  case greaterGreater => exact ⟨_, _, rfl, rfl⟩
  all_goals exact ⟨_, _, rfl, rfl⟩

theorem eq_nil_of_flat {tokens : List Token} (none : flat tokens = []) : tokens = [] := by
  cases tokens with
  | nil => rfl
  | cons token rest =>
    rcases pieces_shown token with ⟨first, more, same, _⟩
    rw [flat_cons, same] at none
    cases none

theorem tokens_grouped (words : List Plain) : (grouped words).tokens = words.flatMap tokens := by
  unfold grouped
  split
  · exact (List.append_nil _).symm
  · exact tokens_seq words

/-- Where the parts of two lists cannot be longer on the left, equal lists have equal parts. -/
theorem parts_of_append {α : Type} {front back longer behind : List α}
    (same : front ++ back = longer ++ behind) (first : front.length ≤ longer.length)
    (second : back.length ≤ behind.length) : front = longer ∧ back = behind := by
  have total := congrArg List.length same
  rw [List.length_append, List.length_append] at total
  exact List.append_inj same (by omega)

mutual

theorem Spells.length_le {tree : Plain} {read : List Token} :
    Spells tree read → (flat tree.tokens).length ≤ (flat read).length
  | .nil => Nat.le_refl _
  | .leaf _ _ => Nat.le_refl _
  | .cell head tail => by
    have front := head.length_le
    have back := tail.length_le
    simp only [tokens, flat_append, List.length_append]
    omega
  | .typename _ head tail => by
    have front := head.length_le
    have back := tail.length_le
    simp only [tokens, flat_append, flat_cons, List.length_append]
    omega
  | .typedefDecl head words tail => by
    have front := head.length_le
    have middle := words.length_le
    have back := tail.length_le
    simp only [tokens, flat_append, List.length_append, tokens_grouped]
    omega
  | .typeId words tail => by
    have middle := words.length_le
    have back := tail.length_le
    simp only [tokens, flat_append, List.length_append, tokens_grouped]
    omega
  | .moved _ words tail => by
    have middle := words.length_le
    have back := tail.length_le
    simp only [tokens, flat_append, List.length_append, tokens_grouped]
    omega

theorem Interleaves.length_le {storage mixed : List Token} {words : List Plain} :
    Interleaves storage words mixed →
      (flat storage).length + (flat (words.flatMap tokens)).length ≤ (flat mixed).length
  | .nil => Nat.le_refl _
  | .storage _ rest => by
    have behind := rest.length_le
    simp only [flat_cons, List.length_append]
    omega
  | .word _ word rest => by
    have front := word.length_le
    have behind := rest.length_le
    simp only [List.flatMap_cons, flat_append, List.length_append]
    omega

end

/-! ## Agreeing pieces -/

theorem Interleaves.isDeclSpecifier {storage mixed : List Token} {words : List Plain} :
    Interleaves storage words mixed → ∀ token ∈ storage, token.kind.isDeclSpecifier = true
  | .nil => fun _ member => absurd member (List.not_mem_nil)
  | .storage holds rest => List.forall_mem_cons.mpr ⟨holds, rest.isDeclSpecifier⟩
  | .word _ _ rest => rest.isDeclSpecifier

/-- Storage classes do not begin with the pieces of another token. -/
theorem Interleaves.storage_nil_of_front {storage mixed : List Token} {words : List Plain}
    {first : Token} {behind : List (Token.Kind × String)} {back : List Token}
    (interleaved : Interleaves storage words mixed) (plain : first.kind.isDeclSpecifier = false)
    (same : flat storage ++ behind = flat (first :: back)) : storage = [] := by
  cases storage with
  | nil => rfl
  | cons token more =>
    have isStorage := interleaved.isDeclSpecifier token (List.mem_cons_self ..)
    rcases pieces_shown token with ⟨left, leftRest, leftSame, leftKind⟩
    rcases pieces_shown first with ⟨right, rightRest, rightSame, rightKind⟩
    rw [flat_cons, flat_cons, leftSame, rightSame] at same
    have heads : left = right := (List.cons.inj same).1
    rw [heads, rightKind, plain, isStorage] at leftKind
    cases leftKind

/-- Where the words hold all pieces there are no storage classes among them. -/
theorem Interleaves.storage_nil {storage mixed : List Token} {words : List Plain}
    (interleaved : Interleaves storage words mixed)
    (same : flat (words.flatMap tokens) = flat mixed) : storage = [] := by
  have most := interleaved.length_le
  have lengths := congrArg List.length same
  exact eq_nil_of_flat (List.length_eq_zero_iff.mp (by omega))

theorem pieces_of_typename {token : Token} (isTypename : token.kind = .kwTypename) :
    pieces token.shown = [(.kwTypename, token.text)] := by
  unfold Token.shown
  rw [isTypename]
  rfl

mutual

theorem Spells.tokens_eq {tree : Plain} {read : List Token} :
    Spells tree read → flat tree.tokens = flat read → tree.tokens = read
  | .nil, _ => rfl
  | .leaf _ _, _ => rfl
  | .cell head tail, same => by
    simp only [tokens, flat_append] at same
    rcases parts_of_append same head.length_le tail.length_le with ⟨front, back⟩
    rw [tokens, head.tokens_eq front, tail.tokens_eq back]
  | .typename isTypename head tail, same => by
    simp only [tokens, flat_append, flat_cons, pieces_of_typename isTypename] at same
    have front := head.length_le
    have back := tail.length_le
    have total := congrArg List.length same
    simp only [List.length_append, List.length_cons, List.length_nil] at total
    omega
  | .typedefDecl head words tail, same => by
    have middle := words.length_le
    have last := tail.length_le
    simp only [tokens, flat_append, tokens_grouped] at same
    rcases parts_of_append same head.length_le (by
      simp only [List.length_append]
      omega) with ⟨front, behind⟩
    rcases parts_of_append behind (by omega) last with ⟨sameWords, back⟩
    have none := words.storage_nil sameWords
    have mixed := words.tokens_eq (by rw [none]; exact sameWords)
    rw [none, List.nil_append] at mixed
    rw [tokens, tokens, tokens_grouped, head.tokens_eq front, mixed, tail.tokens_eq back]
  | .typeId words tail, same => by
    have middle := words.length_le
    simp only [tokens, flat_append, tokens_grouped] at same
    rcases parts_of_append same (by omega) tail.length_le with ⟨sameWords, back⟩
    have none := words.storage_nil sameWords
    have mixed := words.tokens_eq (by rw [none]; exact sameWords)
    rw [none, List.nil_append] at mixed
    rw [tokens, tokens_grouped, mixed, tail.tokens_eq back]
  | .moved _ words tail, same => by
    have middle := words.length_le
    simp only [tokens, flat_append, tokens_grouped] at same
    rw [← List.append_assoc] at same
    rcases parts_of_append same (by rw [List.length_append]; omega) tail.length_le with
      ⟨sameMixed, back⟩
    rw [tokens, tokens, tokens_grouped, ← List.append_assoc, words.tokens_eq sameMixed,
      tail.tokens_eq back]

theorem Interleaves.tokens_eq {storage mixed : List Token} {words : List Plain} :
    Interleaves storage words mixed → flat storage ++ flat (words.flatMap tokens) = flat mixed →
      storage ++ words.flatMap tokens = mixed
  | .nil, _ => rfl
  | .storage _ rest, same => by
    simp only [flat_cons, List.append_assoc] at same
    rw [List.cons_append, rest.tokens_eq (List.append_cancel_left same)]
  | .word plain word rest, same => by
    have none := rest.storage_nil_of_front plain same
    have nothing : flat [] = [] := rfl
    rw [none, nothing, List.nil_append, List.flatMap_cons, flat_append, flat_append] at same
    have behind := rest.length_le
    rcases parts_of_append same word.length_le (by omega) with ⟨front, back⟩
    have words := rest.tokens_eq (by rw [none, nothing, List.nil_append]; exact back)
    rw [none, List.nil_append] at words ⊢
    rw [List.flatMap_cons, word.tokens_eq front, words]

end

/-! ## What is lost and moved -/

mutual

/-- A tree holds every token at most as often as it was read. -/
theorem Spells.subperm {tree : Plain} {read : List Token} :
    Spells tree read → tree.tokens.Subperm read
  | .nil => .refl _
  | .leaf _ _ => .refl _
  | .cell head tail => head.subperm.append tail.subperm
  | .typename _ head tail =>
    head.subperm.append (tail.subperm.trans (List.sublist_cons_self _ _).subperm)
  | .typedefDecl head words tail => by
    refine head.subperm.append ?_
    rw [tokens, tokens_grouped]
    exact ((List.sublist_append_right _ _).subperm.trans words.subperm).append tail.subperm
  | .typeId words tail => by
    rw [tokens, tokens_grouped]
    exact ((List.sublist_append_right _ _).subperm.trans words.subperm).append tail.subperm
  | .moved _ words tail => by
    rw [tokens, tokens, tokens_grouped, ← List.append_assoc]
    exact words.subperm.append tail.subperm

theorem Interleaves.subperm {storage mixed : List Token} {words : List Plain} :
    Interleaves storage words mixed → (storage ++ words.flatMap tokens).Subperm mixed
  | .nil => .refl _
  | .storage _ rest => (List.subperm_cons _).mpr rest.subperm
  | .word _ word rest => by
    rw [List.flatMap_cons]
    refine (List.perm_append_comm_assoc ..).subperm.trans ?_
    exact word.subperm.append rest.subperm

end

/-- Whether a token is neither a `typename` nor a storage class. -/
def isFixed (token : Token) : Bool :=
  !(token.kind == .kwTypename || token.kind.isDeclSpecifier)

theorem not_isFixed_of_typename {token : Token} (isTypename : token.kind = .kwTypename) :
    ¬ isFixed token := by
  simp [isFixed, isTypename]

theorem not_isFixed_of_storage {token : Token} (isStorage : token.kind.isDeclSpecifier = true) :
    ¬ isFixed token := by
  simp [isFixed, isStorage]

theorem Interleaves.filter_storage {storage mixed : List Token} {words : List Plain}
    (interleaved : Interleaves storage words mixed) : storage.filter isFixed = [] :=
  List.filter_eq_nil_iff.mpr fun token member =>
    not_isFixed_of_storage (interleaved.isDeclSpecifier token member)

mutual

/-- What is neither a `typename` nor a storage class is held as it was read. -/
theorem Spells.filter_isFixed {tree : Plain} {read : List Token} :
    Spells tree read → tree.tokens.filter isFixed = read.filter isFixed
  | .nil => rfl
  | .leaf _ _ => rfl
  | .cell head tail => by
    rw [tokens, List.filter_append, List.filter_append, head.filter_isFixed, tail.filter_isFixed]
  | .typename isTypename head tail => by
    have lost := not_isFixed_of_typename isTypename
    rw [tokens, List.filter_append, List.filter_append, List.filter_cons_of_neg lost,
      head.filter_isFixed, tail.filter_isFixed]
  | .typedefDecl head words tail => by
    rw [tokens, tokens, tokens_grouped]
    simp only [List.filter_append]
    rw [head.filter_isFixed, words.filter_isFixed, tail.filter_isFixed]
  | .typeId words tail => by
    rw [tokens, tokens_grouped, List.filter_append, List.filter_append, words.filter_isFixed,
      tail.filter_isFixed]
  | .moved _ words tail => by
    have none := words.filter_storage
    rw [tokens, tokens, tokens_grouped]
    simp only [List.filter_append]
    rw [none, words.filter_isFixed, tail.filter_isFixed, List.nil_append]

theorem Interleaves.filter_isFixed {storage mixed : List Token} {words : List Plain} :
    Interleaves storage words mixed →
      (words.flatMap tokens).filter isFixed = mixed.filter isFixed
  | .nil => rfl
  | .storage isStorage rest => by
    rw [List.filter_cons_of_neg (not_isFixed_of_storage isStorage), rest.filter_isFixed]
  | .word _ word rest => by
    rw [List.flatMap_cons, List.filter_append, List.filter_append, word.filter_isFixed,
      rest.filter_isFixed]

end

end Tree
end CppNames
