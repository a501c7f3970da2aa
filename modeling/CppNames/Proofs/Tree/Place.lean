import CppNames.Proofs.Tree.Apart

namespace CppNames

/-!
# What the places of names cover

The place of a name reaches from its first token to its last.  It covers all identifiers among
the components of the name, and of names that stand apart it is the only one that covers them.
-/

namespace Span

/-- Whether a span covers all of another. -/
def covers (outer inner : Span) : Bool := outer.start ≤ inner.start && inner.stop ≤ outer.stop

theorem covers_iff (outer inner : Span) :
    outer.covers inner = true ↔ outer.start ≤ inner.start ∧ inner.stop ≤ outer.stop := by
  simp [covers]

theorem start_union (left right : Span) :
    (left.union right).start = min left.start right.start := rfl

theorem stop_union (left right : Span) : (left.union right).stop = max left.stop right.stop := by
  apply stop_ofBounds
  simp only [stop]
  omega

end Span

namespace Tree

variable {ι : Type}

open Grammar (grouped)
open Token (InOrder)

/-! ## Places -/

/-- The range from the first to the last token, which a tree without tokens has not. -/
def hull? (tree : Tree ι) : Option Span :=
  match tree.tokens with
  | [] => none
  | first :: rest => some (first.span.union (rest.getLastD first).span)

@[simp] theorem hull?_strip (tree : Tree ι) : tree.strip.hull? = tree.hull? := by
  unfold hull?
  rw [tokens_strip]

/-- Where the place of a tree can be told, it is the range from the first to the last token. -/
theorem eq_hull?_of_place {tree : Tree ι} {span : Option Span} (placed : tree.place = .ok span) :
    span = tree.hull? := by
  unfold place at placed
  unfold hull?
  cases tokens : tree.tokens with
  | nil =>
    rw [tokens] at placed
    exact (Except.ok.inj placed).symm
  | cons first rest =>
    rw [tokens] at placed
    unfold Span.union? at placed
    dsimp only at placed
    by_cases bounded : (first.span.isBounded && (rest.getLastD first).span.isBounded) = true
    · rw [if_pos bounded] at placed
      exact (Except.ok.inj placed).symm
    · rw [if_neg bounded] at placed
      cases placed

theorem hull?_leaf (label : ι) (token : Token) : (leaf label token).hull? = some token.span := by
  have same : token.span.union token.span = token.span := by
    unfold Span.union Span.ofBounds Span.stop
    simp
  exact congrArg some same

/-- The range begins and ends with tokens of the tree. -/
theorem exists_of_hull? {tree : Tree ι} {span : Span} (same : tree.hull? = some span) :
    ∃ first ∈ tree.tokens, ∃ last ∈ tree.tokens, span = first.span.union last.span := by
  unfold hull? at same
  cases tokens : tree.tokens with
  | nil =>
    rw [tokens] at same
    cases same
  | cons first rest =>
    rw [tokens] at same
    refine ⟨first, List.mem_cons_self .., rest.getLastD first, ?_, (Option.some.inj same).symm⟩
    exact List.getLastD_mem_cons ..

/-- The range begins where one of the tokens of the tree begins. -/
theorem exists_start_of_hull? {tree : Tree ι} {span : Span} (same : tree.hull? = some span) :
    ∃ token ∈ tree.tokens, token.pos = span.start := by
  rcases exists_of_hull? same with ⟨first, inFirst, last, inLast, rfl⟩
  rw [Span.start_union]
  rcases Nat.le_total first.pos last.pos with ahead | behind
  · exact ⟨first, inFirst, (Nat.min_eq_left ahead).symm⟩
  · exact ⟨last, inLast, (Nat.min_eq_right behind).symm⟩

/-- Whether the range of a tree covers a token. -/
def spans (tree : Tree ι) (token : Token) : Bool := tree.hull?.any (·.covers token.span)

@[simp] theorem spans_strip (tree : Tree ι) (token : Token) :
    tree.strip.spans token = tree.spans token := by simp [spans]

/-- The bounds of a range that covers a token. -/
theorem exists_of_spans {tree : Tree ι} {token : Token} (spans : tree.spans token = true) :
    ∃ first ∈ tree.tokens, ∃ last ∈ tree.tokens, min first.pos last.pos ≤ token.pos ∧
      token.span.stop ≤ max first.span.stop last.span.stop := by
  rcases (Option.any_eq_true _ _).mp spans with ⟨span, same, covers⟩
  rcases exists_of_hull? same with ⟨first, inFirst, last, inLast, rfl⟩
  rw [Span.covers_iff, Span.start_union, Span.stop_union] at covers
  exact ⟨first, inFirst, last, inLast, covers⟩

/-- Two trees of which one stands in front of the other do not both span a token. -/
theorem Before.not_both {left right : Tree ι} (before : Before left right) {token : Token}
    (nonempty : token.pos < token.span.stop) :
    ¬ (left.spans token = true ∧ right.spans token = true) := by
  rintro ⟨inLeft, inRight⟩
  rcases exists_of_spans inLeft with ⟨first, inFirst, last, inLast, _, ends⟩
  rcases exists_of_spans inRight with ⟨next, inNext, final, inFinal, starts, _⟩
  have early := before first inFirst next inNext
  have late := before first inFirst final inFinal
  have behind := before last inLast next inNext
  have farBehind := before last inLast final inFinal
  omega

/-- At most one of some trees that follow one another spans a token. -/
theorem countP_spans_le {nodes : List (Tree ι)} (ordered : nodes.Pairwise Before) {token : Token}
    (nonempty : token.pos < token.span.stop) : nodes.countP (·.spans token) ≤ 1 := by
  induction ordered with
  | nil => exact Nat.zero_le _
  | @cons node nodes first _ ih =>
    rw [List.countP_cons]
    split
    · next own =>
      have none : nodes.countP (·.spans token) = 0 := by
        apply List.countP_eq_zero.mpr
        intro other member covered
        exact (first other member).not_both nonempty ⟨own, covered⟩
      omega
    · exact ih

/-! ## Identifiers of a name -/

/-- The identifiers of a name: the name itself, or those among its components.  What stands
inside template arguments or in the type of a conversion is no part of them. -/
def identifiers : Tree ι → List Token
  | nil => []
  | leaf _ token => if token.kind = .identifier then [token] else []
  | cell _ _ _ _ head tail =>
    ((head :: tail.chain).filterMap token?).filter (·.kind = .identifier)

/-- The identifiers of a list are tokens among its elements. -/
theorem exists_leaf_of_identifiers {label : ι} {construct : Construct}
    {name type : Option Encoding} {head tail : Tree ι} {token : Token}
    (member : token ∈ (cell label construct name type head tail).identifiers) :
    token.kind = .identifier ∧ ∃ own, leaf own token ∈ head :: tail.chain := by
  have among := List.mem_filter.mp member
  rcases List.mem_filterMap.mp among.1 with ⟨element, inside, shows⟩
  refine ⟨of_decide_eq_true among.2, ?_⟩
  cases element with
  | nil | cell label construct name type head tail => cases shows
  | leaf own other =>
    rw [Option.some.inj shows] at inside
    exact ⟨own, inside⟩

/-- The identifiers of a tree are tokens in it. -/
theorem exists_atom_of_identifiers {tree : Tree ι} {token : Token}
    (member : token ∈ tree.identifiers) : token.kind = .identifier ∧
      ∃ atom ∈ tree.preorder, atom.token? = some token := by
  cases tree with
  | nil => exact absurd member List.not_mem_nil
  | leaf label own =>
    have only : token ∈ if own.kind = .identifier then [own] else [] := member
    split at only
    · next identifier =>
      rw [List.mem_singleton.mp only]
      exact ⟨identifier, _, List.mem_singleton_self _, rfl⟩
    · exact absurd only List.not_mem_nil
  | cell label construct name type head tail =>
    rcases exists_leaf_of_identifiers member with ⟨identifier, own, inside⟩
    refine ⟨identifier, leaf own token, ?_, rfl⟩
    apply (parts_elements_sublist (cell label construct name type head tail)).subset
    exact List.mem_flatMap.mpr ⟨leaf own token, inside, List.mem_singleton_self _⟩

theorem mem_tokens_of_identifiers {tree : Tree ι} {token : Token}
    (member : token ∈ tree.identifiers) : token ∈ tree.tokens := by
  cases tree with
  | nil => exact member
  | leaf label own =>
    have only : token ∈ if own.kind = .identifier then [own] else [] := member
    split at only
    · exact only
    · exact absurd only List.not_mem_nil
  | cell label construct name type head tail =>
    rcases exists_leaf_of_identifiers member with ⟨_, own, inside⟩
    apply (tokens_elements_sublist (cell label construct name type head tail)).subset
    exact List.mem_flatMap.mpr ⟨leaf own token, inside, List.mem_singleton_self token⟩

/-- A token stands among others in front of everything that stands behind it in the text. -/
def Leads (tokens : List Token) (token : Token) : Prop :=
  ∃ before behind, tokens = before ++ token :: behind ∧
    ∀ later ∈ behind, token.span.stop ≤ later.pos

theorem Leads.append {back : List Token} {token : Token} (leads : Leads back token)
    (front : List Token) : Leads (front ++ back) token := by
  rcases leads with ⟨before, behind, rfl, later⟩
  exact ⟨front ++ before, behind, (List.append_assoc ..).symm, later⟩

/-- A token leads what is held of the text behind it. -/
theorem leads_of_inOrder {front back behind : List Token} {token : Token}
    (inOrder : InOrder (front ++ back)) (member : token ∈ front) (held : behind ⊆ back) :
    Leads (token :: behind) token := by
  refine ⟨[], behind, rfl, fun later inside => ?_⟩
  rcases List.pairwise_append.mp inOrder.ordered with ⟨_, _, across⟩
  exact across token member later (held inside)

theorem Interleaves.grouped_subset {storage mixed : List Token} {words : List Plain}
    (interleaved : Interleaves storage words mixed) : (grouped words).tokens ⊆ mixed := by
  intro token member
  rw [tokens_grouped] at member
  exact interleaved.subperm.subset (List.mem_append_right _ member)

theorem Interleaves.append_subset {storage mixed back behind : List Token} {words : List Plain}
    (interleaved : Interleaves storage words mixed) (held : behind ⊆ back) :
    (grouped words).tokens ++ behind ⊆ mixed ++ back := by
  intro token member
  rcases List.mem_append.mp member with early | late
  · exact List.mem_append_left _ (interleaved.grouped_subset early)
  · exact List.mem_append_right _ (held late)

/-- A single token as the words of a type. -/
theorem Interleaves.leads {storage mixed back behind : List Token} {words : List Plain}
    {token : Token} (interleaved : Interleaves storage words mixed)
    (inOrder : InOrder (mixed ++ back)) (same : Tree.leaf () token = grouped words)
    (held : behind ⊆ back) : Leads ((grouped words).tokens ++ behind) token := by
  have member : token ∈ mixed := by
    apply interleaved.grouped_subset
    rw [← same]
    exact List.mem_singleton_self _
  rw [← same]
  exact leads_of_inOrder inOrder member held

/-- A token among the elements of a list leads the list, unless it is a storage class. -/
theorem Spells.leads {tree : Plain} {read : List Token} :
    Spells tree read → InOrder read → ∀ {token : Token},
      Tree.leaf () token ∈ tree.chain → token.kind.isDeclSpecifier = false →
      Leads tree.tokens token
  | .nil, _, _, member, _ => absurd member List.not_mem_nil
  | .leaf _ _, _, _, member, _ => nomatch List.mem_singleton.mp member
  | .cell head tail, inOrder, token, member, plain => by
    have behind := inOrder.sublist (List.sublist_append_right ..)
    rcases List.mem_cons.mp member with rfl | inside
    · cases head
      exact leads_of_inOrder inOrder (List.mem_singleton_self _) tail.subperm.subset
    · exact (tail.leads behind inside plain).append _
  | .typename lost head tail, inOrder, token, member, plain => by
    have behind := inOrder.sublist
      ((List.sublist_cons_self ..).trans (List.sublist_append_right ..))
    rcases List.mem_cons.mp member with rfl | inside
    · cases head
      exact leads_of_inOrder inOrder (List.mem_singleton_self _)
        (List.subset_cons_of_subset _ tail.subperm.subset)
    · exact (tail.leads behind inside plain).append _
  | .typedefDecl head words tail, inOrder, token, member, plain => by
    have inner := inOrder.sublist (List.sublist_append_right ..)
    have behind := inner.sublist (List.sublist_append_right ..)
    rcases List.mem_cons.mp member with rfl | inside
    · cases head
      exact leads_of_inOrder inOrder (List.mem_singleton_self _)
        (words.append_subset tail.subperm.subset)
    · rcases List.mem_cons.mp inside with same | inside
      · exact (words.leads inner same tail.subperm.subset).append _
      · exact ((tail.leads behind inside plain).append _).append _
  | .typeId words tail, inOrder, token, member, plain => by
    have behind := inOrder.sublist (List.sublist_append_right ..)
    rcases List.mem_cons.mp member with same | inside
    · exact words.leads inOrder same tail.subperm.subset
    · exact (tail.leads behind inside plain).append _
  | .moved which words tail, inOrder, token, member, plain => by
    have behind := inOrder.sublist (List.sublist_append_right ..)
    rcases List.mem_cons.mp member with rfl | inside
    · rw [words.isDeclSpecifier token (List.mem_singleton_self _)] at plain
      cases plain
    · rcases List.mem_cons.mp inside with same | inside
      · exact (words.leads inOrder same tail.subperm.subset).append _
      · exact ((tail.leads behind inside plain).append _).append _

@[simp] theorem identifiers_strip (tree : Tree ι) : tree.strip.identifiers = tree.identifiers := by
  cases tree with
  | nil | leaf label token => rfl
  | cell label construct name type head tail =>
    have tokens : (token? : Plain → Option Token) ∘ strip = token? (ι := ι) := by
      funext element
      cases element <;> rfl
    simp only [strip, identifiers, chain_strip, ← List.map_cons, List.filterMap_map, tokens]

/-- A list ends behind each token that leads it. -/
theorem Leads.stop_le {first token : Token} {rest : List Token}
    (leads : Leads (first :: rest) token)
    (nonempty : ∀ token ∈ first :: rest, token.pos < token.span.stop) :
    token.span.stop ≤ (rest.getLastD first).span.stop := by
  rcases leads with ⟨before, behind, same, later⟩
  have last : rest.getLastD first = behind.getLastD token := by
    have ends := congrArg List.getLast? same
    rw [List.getLast?_append, List.getLast?_cons, List.getLast?_cons,
      ← List.getLastD_eq_getLast?, ← List.getLastD_eq_getLast?] at ends
    exact Option.some.inj ends
  rw [last]
  cases behind with
  | nil => exact Nat.le_refl _
  | cons next more =>
    have inside : more.getLastD next ∈ next :: more := List.getLastD_mem_cons ..
    have apart := later _ inside
    have covers := nonempty (more.getLastD next) (by
      rw [same]
      exact List.mem_append_right _ (List.mem_cons_of_mem _ inside))
    rw [List.getLastD_cons]
    omega

/-- Nothing in a name stands in front of its first token. -/
theorem pos_le_of_name {label own : Unit} {name type : Option Encoding} {first : Token}
    {tail : Plain} {read : List Token}
    (spells : (cell label .name name type (leaf own first) tail).Spells read)
    (inOrder : InOrder read) : ∀ token ∈ first :: tail.tokens, first.pos ≤ token.pos := by
  cases spells with
  | cell head behind =>
    cases head
    rcases List.pairwise_cons.mp inOrder.ordered with ⟨ahead, _⟩
    intro token member
    rcases List.mem_cons.mp member with rfl | inside
    · exact Nat.le_refl _
    · have apart := ahead token (behind.subperm.subset inside)
      have covers := inOrder.nonempty first (List.mem_cons_self ..)
      omega
  | moved which => rcases which with impossible | impossible <;> cases impossible

/-- The range of a name covers the identifiers of the name. -/
theorem spans_of_mem_identifiers {node : Plain} {read : List Token} (led : node.IsLed)
    (spells : node.Spells read) (inOrder : InOrder read) {token : Token}
    (member : token ∈ node.identifiers) : node.spans token = true := by
  cases node with
  | nil => exact absurd member List.not_mem_nil
  | leaf label own =>
    have only : token ∈ if own.kind = .identifier then [own] else [] := member
    split at only
    · rw [List.mem_singleton.mp only]
      unfold spans
      rw [hull?_leaf]
      exact (Span.covers_iff _ _).mpr ⟨Nat.le_refl _, Nat.le_refl _⟩
    · exact absurd only List.not_mem_nil
  | cell label construct name type head tail =>
    rcases led with impossible | ⟨isName, leads⟩
    · cases impossible
    · have same : construct = .name := Option.some.inj (eq_of_beq isName)
      subst same
      rcases leadsName_eq leads with ⟨own, first, rfl, _⟩
      rcases exists_leaf_of_identifiers member with ⟨identifier, _, inside⟩
      have leads := spells.leads inOrder inside (by rw [identifier]; rfl)
      have ends := leads.stop_le fun token inside =>
        inOrder.nonempty token (spells.subperm.subset inside)
      have starts := pos_le_of_name spells inOrder token (mem_tokens_of_identifiers member)
      apply (Option.any_eq_true _ _).mpr
      refine ⟨_, rfl, (Span.covers_iff _ _).mpr ?_⟩
      rw [Span.start_union, Span.stop_union]
      exact ⟨Nat.le_trans (Nat.min_le_left ..) starts, Nat.le_trans ends (Nat.le_max_right ..)⟩

end Tree
end CppNames
