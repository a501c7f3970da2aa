import CppNames.Proofs.Reference.Part
import Mathlib.Logic.Relation

namespace CppNames

/-!
# Operands and their uses

An operand is a name that the pass over uses can come to: from a node to one of the parts that
are opened in it, from there to a part of that part, and so on.  The pass finds a use at each
operand, and it finds uses only at names that stand apart in the tree.  Both are shown at once:
a visit to a node finds uses at names that stand apart in the node, and all operands that are
reached from the node are among these names.
-/

namespace Reference

open CppNames.Tree (Apart EachApart)

variable {setting : Setting} {size : Nat} {scope : ScopeId}

/-- Whether one node is reached from another through parts in which expressions can stand. -/
def Reaches : Node → Node → Prop := Relation.ReflTransGen fun node part => part ∈ opened node

/-! ## Single names -/

/-- Nothing is opened in a node: it is no list, or it is a name. -/
def IsClosed (node : Node) : Prop := node.isCell = false ∨ node.isA .name = true

theorem IsNamed.isClosed {node : Node} (named : IsNamed node) : IsClosed node := by
  cases node with
  | nil | leaf label token => exact .inl rfl
  | cell label construct name type head tail =>
    rw [(isNamed_cell.mp named).1]
    exact .inr rfl

theorem isClosed_of_isDeclaredName {node : Node} (isName : node.isDeclaredName = true) :
    IsClosed node := by
  cases node with
  | nil | leaf label token => exact .inl rfl
  | cell label construct name type head tail => exact .inr isName

theorem IsClosed.not_mem_opened {node part : Node} (closed : IsClosed node) :
    part ∉ opened node := by
  cases node with
  | nil | leaf label token => exact List.not_mem_nil
  | cell label construct name type head tail =>
    rcases closed with list | isName
    · cases list
    · have same : construct = .name := Option.some.inj (eq_of_beq isName)
      subst same
      exact List.not_mem_nil

/-- From a token or a name only itself is reached. -/
theorem IsClosed.eq_of_reaches {node operand : Node} (closed : IsClosed node)
    (reaches : Reaches node operand) : operand = node := by
  rcases Relation.ReflTransGen.cases_head reaches with same | ⟨part, opens, _⟩
  · exact same.symm
  · exact absurd opens closed.not_mem_opened

/-- A visit to a name finds the name. -/
theorem once_of_isNamed {node : Node} (named : IsNamed node) :
    Gives (visitWithin setting (size + 1) scope node) (Once node.hull?) := by
  cases node with
  | nil => exact absurd named not_isNamed_nil
  | leaf label token =>
    change Gives (visitToken setting scope token) _
    unfold visitToken
    rw [if_pos ((isNamed_leaf label token).mp named), Tree.hull?_leaf]
    exact once_lookUp _ _ _ _
  | cell label construct name type head tail =>
    rcases isNamed_cell.mp named with ⟨rfl, encoded⟩
    rcases Option.isSome_iff_exists.mp encoded with ⟨name, rfl⟩
    exact once_ofNode fun use => once_lookUp _ _ _ use

/-- A visit to any other token finds nothing. -/
theorem none_of_isClosed {node : Node} (closed : IsClosed node) (other : ¬ IsNamed node) :
    Gives (visitWithin setting (size + 1) scope node) fun findings => findings.references = [] := by
  cases node with
  | nil => exact .ok rfl
  | leaf label token =>
    change Gives (visitToken setting scope token) _
    unfold visitToken
    rw [if_neg fun identifier => other ((isNamed_leaf label token).mpr identifier)]
    exact .ok rfl
  | cell label construct name type head tail =>
    rcases closed with list | isName
    · cases list
    · have same : construct = .name := Option.some.inj (eq_of_beq isName)
      cases name with
      | none =>
        subst same
        exact .ok rfl
      | some name => exact absurd (isNamed_cell.mpr ⟨same, rfl⟩) other

/-! ## Uses stand apart -/

/-- An operand is a node of some trees, and one of the names at which there are uses if it is
encoded. -/
def IsFound (trees names : List Node) (operand : Node) : Prop :=
  operand ∈ Tree.parts trees ∧ (IsNamed operand → operand ∈ names)

/-- Uses stand at names that stand apart in some trees, and all operands that are reached from
the trees are found. -/
def FoundIn (trees : List Node) (references : List Reference) : Prop :=
  ∃ names, EachApart trees names ∧ (∀ name ∈ names, IsNamed name) ∧
    references.map (·.span) = names.map (·.hull?) ∧
    ∀ tree ∈ trees, ∀ operand, Reaches tree operand → operand.isDeclaredName = true →
      IsFound trees names operand

theorem isFound_self {node : Node} {names : List Node} (isName : node.isDeclaredName = true)
    (among : IsNamed node → node ∈ names) : IsFound [node] names node := by
  refine ⟨?_, among⟩
  apply (Tree.preorder_sublist_of_mem (List.mem_singleton_self node)).subset
  apply Tree.mem_preorder_self
  cases node with
  | nil => cases isName
  | leaf label token | cell label construct name type head tail => rfl

theorem foundIn_nil : FoundIn [] [] :=
  ⟨[], .nil, fun _ member => absurd member List.not_mem_nil, rfl,
    fun _ member => absurd member List.not_mem_nil⟩

theorem FoundIn.append {trees behind : List Node} {early late : List Reference}
    (front : FoundIn trees early) (back : FoundIn behind late) :
    FoundIn (trees ++ behind) (early ++ late) := by
  rcases front with ⟨names, apart, all, spans, reached⟩
  rcases back with ⟨more, apartMore, allMore, spansMore, reachedMore⟩
  refine ⟨names ++ more, apart.append apartMore, List.forall_mem_append.mpr ⟨all, allMore⟩, ?_,
    fun tree member operand reaches isName => ?_⟩
  · rw [List.map_append, List.map_append, spans, spansMore]
  · unfold IsFound
    rw [Tree.parts_append]
    rcases List.mem_append.mp member with early | late
    · exact (reached tree early operand reaches isName).imp (List.mem_append_left _)
        fun found named => List.mem_append_left _ (found named)
    · exact (reachedMore tree late operand reaches isName).imp (List.mem_append_right _)
        fun found named => List.mem_append_right _ (found named)

/-- The use of a name is found in the name. -/
theorem foundIn_singleton {node : Node} {reference : Reference} (named : IsNamed node)
    (span : reference.span = node.hull?) : FoundIn [node] [reference] := by
  refine ⟨[node], .single (.whole node), List.forall_mem_singleton.mpr named, ?_,
    List.forall_mem_singleton.mpr fun operand reaches isName => ?_⟩
  · rw [List.map_singleton, List.map_singleton, span]
  · have same := named.isClosed.eq_of_reaches reaches
    subst same
    exact isFound_self isName fun _ => List.mem_singleton_self operand

/-- Nothing is found in a token that is no name. -/
theorem foundIn_of_isClosed {node : Node} (closed : IsClosed node) (other : ¬ IsNamed node) :
    FoundIn [node] [] := by
  refine ⟨[], .none _, fun _ member => absurd member List.not_mem_nil, rfl,
    List.forall_mem_singleton.mpr fun operand reaches isName => ?_⟩
  have same := closed.eq_of_reaches reaches
  subst same
  exact isFound_self isName fun named => absurd named other

/-- What is found in each part is found in the parts. -/
theorem Entered.foundIn {parts : List Node} {references : List Reference}
    (entered : Entered setting size parts references)
    (each : ∀ part ∈ parts, ∀ room scope, size ≤ room →
      Gives (visitWithin setting room scope part) fun findings =>
        FoundIn [part] findings.references) : FoundIn parts references := by
  induction entered with
  | nil => exact foundIn_nil
  | visited enough visits _ ih =>
    rcases List.forall_mem_cons.mp each with ⟨own, rest⟩
    exact (own _ _ enough _ visits).append (ih rest)
  | noted named span _ ih =>
    rcases List.forall_mem_cons.mp each with ⟨_, rest⟩
    exact (foundIn_singleton named span).append (ih rest)

/-- What a step finds in some trees, given what visits find in all smaller nodes.  The parts that
it opens are among those in which it finds something. -/
theorem Covers.exists_names {trees wanted : List Node} {step : Step}
    (covers : Covers setting size trees wanted step)
    (each : ∀ tree ∈ trees, ∀ part, part.size ≤ tree.size → ∀ room scope, size ≤ room →
      Gives (visitWithin setting room scope part) fun findings =>
        FoundIn [part] findings.references) :
    Gives step fun findings => ∃ names, EachApart trees names ∧ (∀ name ∈ names, IsNamed name) ∧
      findings.references.map (·.span) = names.map (·.hull?) ∧
      ∀ part ∈ wanted, ∀ operand, Reaches part operand → operand.isDeclaredName = true →
        IsFound trees names operand := by
  intro findings same
  rcases covers findings same with ⟨parts, entered, apart, _, all⟩
  have found : FoundIn parts findings.references := by
    refine entered.foundIn fun part member => ?_
    rcases apart.exists_size_le member with ⟨tree, among, small⟩
    exact each tree among part small
  rcases found with ⟨names, inside, named, spans, reached⟩
  refine ⟨names, apart.trans inside, named, spans, fun part opens operand reaches isName => ?_⟩
  have there : part.isNil = false := by
    cases part with
    | nil =>
      have absent : IsClosed .nil := .inl rfl
      rw [absent.eq_of_reaches reaches] at isName
      cases isName
    | leaf label token | cell label construct name type head tail => rfl
  exact (reached part (all part opens there) operand reaches isName).imp_left
    (apart.parts_sublist.subset ·)

/-- A visit with enough room finds uses at names that stand apart in the node, and it finds every
operand that is reached from the node. -/
theorem foundIn_visitWithin (node : Node) : ∀ size scope, node.size ≤ size →
    Gives (visitWithin setting size scope node) fun findings =>
      FoundIn [node] findings.references := by
  induction within : node.size using Nat.strong_induction_on generalizing node with
  | _ count ih =>
    intro size scope enough
    cases size with
    | zero =>
      have absent : node = .nil := by
        cases node with
        | nil => rfl
        | leaf label token | cell label construct name type head tail =>
          rw [Tree.size] at within
          omega
      subst absent
      exact .ok (foundIn_of_isClosed (.inl rfl) not_isNamed_nil)
    | succ size =>
      intro findings visits
      by_cases named : IsNamed node
      · rcases once_of_isNamed named findings visits with ⟨reference, only, span⟩
        rw [only]
        exact foundIn_singleton named span
      · by_cases closed : IsClosed node
        · rw [none_of_isClosed closed named findings visits]
          exact foundIn_of_isClosed closed named
        · have list : node.isCell = true ∧ node.isA .name = false := by
            simpa [IsClosed] using closed
          have found := (covers_visitNode list.1 list.2).exists_names
            (fun element member part small room scope larger => ?_) findings visits
          · rcases found with ⟨names, apart, all, spans, reached⟩
            refine ⟨names, .single (.elements apart), all, spans,
              List.forall_mem_singleton.mpr fun operand reaches isName => ?_⟩
            rcases Relation.ReflTransGen.cases_head reaches with rfl | ⟨part, opens, behind⟩
            · exact absurd (isClosed_of_isDeclaredName isName) closed
            · refine (reached part opens operand behind isName).imp_left fun inside => ?_
              have whole := (Tree.parts_elements_sublist node).subset inside
              exact (Tree.preorder_sublist_of_mem (List.mem_singleton_self node)).subset whole
          · have inside := Tree.size_lt_of_mem_elements member
            exact ih part.size (by omega) part rfl room scope (by omega)

/-! ## Uses of a tree -/

/-- The uses in a tree stand at names that stand apart in the tree, and all operands that are
reached from its elements are among these names. -/
theorem exists_names_of_findReferences {tree : Node} {findings : Findings}
    (finds : findReferences setting tree = .ok findings) :
    ∃ names, Apart tree names ∧ (∀ name ∈ names, IsNamed name) ∧
      findings.references.map (·.span) = names.map (·.hull?) ∧
      ∀ item ∈ tree.present, ∀ operand, Reaches item operand → operand.isDeclaredName = true →
        operand ∈ tree.preorder ∧ (IsNamed operand → operand ∈ names) := by
  have covers : Covers setting tree.size tree.elements tree.present (findReferences setting tree) :=
    .visitElements tree (Nat.le_refl _)
  have found := covers.exists_names
    (fun element member part small room scope larger => ?_) findings finds
  · rcases found with ⟨names, apart, named, spans, reached⟩
    refine ⟨names, .elements apart, named, spans, fun item member operand reaches isName => ?_⟩
    exact (reached item member operand reaches isName).imp_left
      ((Tree.parts_elements_sublist tree).subset ·)
  · have inside := Tree.size_lt_of_mem_elements member
    exact foundIn_visitWithin part room scope (by omega)

/-! ## Uses in order -/

/-- Where the tokens of a tree are in order, the uses that have a place come in order, and no two
of them begin at one place. -/
theorem pairwise_start_of_findReferences {tree : Node} {findings : Findings}
    (ordered : tree.tokens.Pairwise (·.pos < ·.pos))
    (finds : findReferences setting tree = .ok findings) :
    (findings.references.filterMap (·.span)).Pairwise (·.start < ·.start) := by
  rcases exists_names_of_findReferences finds with ⟨names, apart, _, spans, _⟩
  have across : names.Pairwise fun early late =>
      ∀ first ∈ early.tokens, ∀ second ∈ late.tokens, first.pos < second.pos :=
    (List.pairwise_flatMap.mp (ordered.sublist apart.tokens_sublist)).2
  have shown : findings.references.filterMap (·.span) = names.filterMap (·.hull?) := by
    have same := congrArg (List.filterMap id) spans
    rwa [List.filterMap_map, List.filterMap_map] at same
  rw [shown, List.pairwise_filterMap]
  refine across.imp fun apart early first late second => ?_
  rcases Tree.exists_start_of_hull? first with ⟨opening, inEarly, starts⟩
  rcases Tree.exists_start_of_hull? second with ⟨next, inLate, follows⟩
  rw [← starts, ← follows]
  exact apart opening inEarly next inLate

/-- The call `f(g(x))`. -/
def callInCall : Node :=
  (Tree.seq [.list .funcallExpr [.ofToken ⟨.identifier, "f", 0⟩, .ofToken ⟨.openParen, "(", 1⟩,
    .seq [.list .funcallExpr [.ofToken ⟨.identifier, "g", 2⟩, .ofToken ⟨.openParen, "(", 3⟩,
      .seq [.ofToken ⟨.identifier, "x", 4⟩], .ofToken ⟨.closeParen, ")", 5⟩]],
    .ofToken ⟨.closeParen, ")", 6⟩]]).numbered

/-- The theorem for three uses in one call. -/
theorem pairwise_start_of_findReferences_callInCall : ∃ findings,
    callInCall.tokens.Pairwise (·.pos < ·.pos) ∧
      findReferences ⟨.initial, [], "a.cc", true⟩ callInCall = .ok findings ∧
      (findings.references.filterMap (·.span)).map (·.start) = [0, 2, 4] ∧
      (findings.references.filterMap (·.span)).Pairwise (·.start < ·.start) := by
  have ordered : callInCall.tokens.Pairwise (·.pos < ·.pos) := by decide
  have starts : (findReferences ⟨.initial, [], "a.cc", true⟩ callInCall).toOption.map
      (fun findings => (findings.references.filterMap (·.span)).map (·.start)) =
        some [0, 2, 4] := by decide +kernel
  cases finds : findReferences ⟨.initial, [], "a.cc", true⟩ callInCall with
  | error stop => rw [finds] at starts; cases starts
  | ok findings =>
    rw [finds] at starts
    exact ⟨findings, ordered, rfl, Option.some.inj starts,
      pairwise_start_of_findReferences ordered finds⟩

end Reference
end CppNames
