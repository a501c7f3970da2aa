import CppNames.Proofs.Reference.Shut

namespace CppNames
namespace Reference

/-!
# Two passes over one tree

The pass over uses can resolve calls or leave them alone.  Either way it visits the same nodes in
the same scopes, so two passes can differ only in what they make of the callee of a call.  `Tracks`
relates what the two find: the second pass comes to an end where the first one does, with a related
result or at the same malformed construct.  Of a pass that is at fault nothing is said.

A relation that holds of what is found at each name, and that can be joined, therefore holds of what
is found in the whole tree.  A pass may also be compared with itself.  Then the relation is a
property of all that it finds.
-/

/-! ## Related results -/

/-- The second computation comes to an end where the first one does. -/
def Tracks {α β : Type} (relates : α → β → Prop) (step : Except PassError α)
    (other : Except PassError β) : Prop :=
  match step with
  | .ok value => ∃ again, other = .ok again ∧ relates value again
  | .error (.shape error) => other = .error (.shape error)
  | .error (.fault _) => True

namespace Tracks

variable {α β γ δ : Type} {relates : α → β → Prop} {relatesBehind : γ → δ → Prop}
  {step : Except PassError α} {other : Except PassError β}

theorem ok {value : α} {again : β} (related : relates value again) :
    Tracks relates (.ok value) (.ok again) :=
  ⟨again, rfl, related⟩

theorem bind {next : α → Except PassError γ} {nextAgain : β → Except PassError δ}
    (first : Tracks relates step other)
    (rest : ∀ value again, relates value again →
      Tracks relatesBehind (next value) (nextAgain again)) :
    Tracks relatesBehind (step >>= next) (other >>= nextAgain) := by
  cases step with
  | ok value =>
    rcases first with ⟨again, rfl, related⟩
    exact rest value again related
  | error error =>
    cases error with
    | fault fault => exact trivial
    | shape error =>
      have same : other = .error (.shape error) := first
      rw [same]
      rfl

/-- What comes behind one and the same computation. -/
theorem behind {first : Except PassError α} {next : α → Except PassError γ}
    {nextAgain : α → Except PassError δ}
    (rest : ∀ value, Tracks relatesBehind (next value) (nextAgain value)) :
    Tracks relatesBehind (first >>= next) (first >>= nextAgain) := by
  cases first with
  | ok value => exact rest value
  | error error =>
    cases error with
    | fault fault => exact trivial
    | shape error => rfl

/-- A computation compared with itself, where its results have a property. -/
theorem self {step : Except PassError α} {relates : α → α → Prop}
    (gives : Gives step fun value => relates value value) : Tracks relates step step := by
  cases step with
  | ok value => exact ⟨value, rfl, gives value rfl⟩
  | error error =>
    cases error with
    | fault fault => exact trivial
    | shape error => rfl

theorem malformed (node : Node) (construct : Construct) (expected : Expectation) :
    Tracks relates (malformed node construct expected) (malformed node construct expected) :=
  .behind fun _ => rfl

/-- A computation on the table, which can only be at fault. -/
theorem answer {outcome : Outcome α} {again : Outcome β}
    (ends : ∀ value, outcome = .ok value → ∃ result, again = .ok result ∧ relates value result) :
    Tracks relates (answer outcome) (answer again) := by
  cases outcome with
  | error fault => exact trivial
  | ok value =>
    rcases ends value rfl with ⟨result, rfl, related⟩
    exact ⟨result, rfl, related⟩

end Tracks

/-! ## Related findings -/

/-- A relation of findings that can be joined. -/
structure Joins (relates : Findings → Findings → Prop) : Prop where
  nothing : relates {} {}
  append : ∀ {front back frontAgain backAgain}, relates front frontAgain →
    relates back backAgain → relates (front ++ back) (frontAgain ++ backAgain)

theorem visitAll_cons (visit : Visit) (scope : ScopeId) (node : Node) (nodes : List Node) :
    visitAll visit scope (node :: nodes) = do
      let front ← visit scope node
      let back ← visitAll visit scope nodes
      return front ++ back := by
  unfold visitAll
  rw [List.mapM_cons]
  simp only [bind_assoc, pure_bind]
  rfl

namespace Joins

variable {relates : Findings → Findings → Prop} {step stepBehind other otherBehind : Step}
  {visit again : Visit} {scope : ScopeId}

theorem sequence (joins : Joins relates) (first : Tracks relates step other)
    (second : Tracks relates stepBehind otherBehind) :
    Tracks relates (do let front ← step; let back ← stepBehind; return front ++ back)
      (do let front ← other; let back ← otherBehind; return front ++ back) :=
  first.bind fun _ _ early => second.bind fun _ _ late => .ok (joins.append early late)

theorem visitAll (joins : Joins relates) {nodes : List Node}
    (each : ∀ node ∈ nodes, Tracks relates (visit scope node) (again scope node)) :
    Tracks relates (Reference.visitAll visit scope nodes)
      (Reference.visitAll again scope nodes) := by
  induction nodes with
  | nil => exact .ok joins.nothing
  | cons node nodes ih =>
    rcases List.forall_mem_cons.mp each with ⟨own, rest⟩
    rw [visitAll_cons, visitAll_cons]
    exact joins.sequence own (ih rest)

end Joins

/-! ## Two settings -/

/-- The same pass, resolving calls or not. -/
def Setting.resolving (setting : Setting) (resolves : Bool) : Setting :=
  { setting with resolveCalls := resolves }

@[simp] theorem resolveCalls_resolving (setting : Setting) (resolves : Bool) :
    (setting.resolving resolves).resolveCalls = resolves := rfl

/-- What a pass that resolves calls makes of a callee that is a name. -/
def resolveCallee (setting : Setting) (scope : ScopeId) (call : Node) (name : Encoding) : Step := do
  let use ← answer (Use.ofNode name call.first)
  answer (ofCall (setting.site scope) setting.file call use)

/-- What is known of a pass and of the same pass resolving calls or not: how the findings at a name
are related, and those at a callee. -/
structure Pairs (setting : Setting) (resolves : Bool) (relates : Findings → Findings → Prop) : Prop
    extends Joins relates where
  looked : ∀ context scope use, Gives (lookUp setting context scope use) fun findings =>
    relates findings findings
  plain : setting.resolveCalls = false → resolves = false
  called : setting.resolveCalls = true → ∀ scope call name, call.first.calleeName? = some name →
    ∀ size, call.first.size ≤ size → Tracks relates (resolveCallee setting scope call name)
      (if resolves then resolveCallee setting scope call name
        else visitWithin (setting.resolving false) size scope call.first)

variable {setting : Setting} {resolves : Bool} {relates : Findings → Findings → Prop} {size : Nat}
  {scope : ScopeId} {node : Node}

/-- Both passes find related things in every node of at most some size. -/
def Agree (setting : Setting) (resolves : Bool) (relates : Findings → Findings → Prop) (size : Nat) :
    Prop :=
  ∀ scope node, node.size ≤ size → Tracks relates (visitWithin setting size scope node)
    (visitWithin (setting.resolving resolves) size scope node)

/-- The elements of a list are smaller than the list. -/
theorem size_le_of_mem_present {part : Node} (member : part ∈ node.present)
    (small : node.size ≤ size + 1) : part.size ≤ size := by
  have smaller := Tree.size_lt_of_mem_elements (Tree.mem_present member).1
  omega

namespace Pairs

section

variable (pairs : Pairs setting resolves relates) (agree : Agree setting resolves relates size)

include pairs

theorem lookUp (context : LookupContext) (use : Use) :
    Tracks relates (lookUp setting context scope use)
      (lookUp (setting.resolving resolves) context scope use) :=
  .self (pairs.looked context scope use)

theorem nothing_ok : Tracks relates (.ok {}) (.ok {}) := .ok pairs.nothing

include agree

theorem visitElements (scope : ScopeId) (small : node.size ≤ size + 1) :
    Tracks relates (visitElements (visitWithin setting size) scope node)
      (visitElements (visitWithin (setting.resolving resolves) size) scope node) :=
  pairs.visitAll fun _ member => agree scope _ (size_le_of_mem_present member small)

/-! ## Declarations -/

theorem visitTypeWord {word : Node} (small : word.size ≤ size) :
    Tracks relates (visitTypeWord setting (visitWithin setting size) scope word)
      (visitTypeWord (setting.resolving resolves) (visitWithin (setting.resolving resolves) size)
        scope word) := by
  unfold Reference.visitTypeWord
  split
  · exact agree scope word small
  · refine .behind fun inBody => ?_
    split
    · split
      · exact .behind fun use => pairs.lookUp _ use
      · exact pairs.nothing_ok
    · exact pairs.nothing_ok

theorem visitType (scope : ScopeId) {words : Node} (small : words.size ≤ size) :
    Tracks relates (visitType setting (visitWithin setting size) scope words)
      (visitType (setting.resolving resolves) (visitWithin (setting.resolving resolves) size)
        scope words) :=
  pairs.visitAll fun word member =>
    pairs.visitTypeWord agree (((Tree.size_typeWords_le words).1 word member).trans small)

theorem visitDeclaratorElement (prototype : Option ScopeId) {element : Node}
    (small : element.size ≤ size) :
    Tracks relates (visitDeclaratorElement (visitWithin setting size) prototype scope element)
      (visitDeclaratorElement (visitWithin (setting.resolving resolves) size) prototype scope
        element) := by
  unfold Reference.visitDeclaratorElement
  split
  · split
    · exact pairs.visitElements agree _ (small.trans (Nat.le_succ size))
    · exact agree scope element small
  · exact agree scope element small

theorem visitDeclarator (scope : ScopeId) {declarator : Node} (small : declarator.size ≤ size + 1) :
    Tracks relates (visitDeclarator setting (visitWithin setting size) scope declarator)
      (visitDeclarator (setting.resolving resolves) (visitWithin (setting.resolving resolves) size)
        scope declarator) :=
  pairs.visitAll fun _ member => pairs.visitDeclaratorElement agree _
    (size_le_of_mem_present (List.mem_of_mem_eraseP member) small)

theorem visitDeclarators {list : Node} (small : list.size ≤ size) :
    Tracks relates (visitDeclarators setting (visitWithin setting size) scope list)
      (visitDeclarators (setting.resolving resolves) (visitWithin (setting.resolving resolves) size)
        scope list) :=
  pairs.visitAll fun _ member =>
    have inside := Tree.size_lt_of_mem_elements (Tree.mem_present (List.mem_filter.mp member).1).1
    pairs.visitDeclarator agree _ (by omega)

theorem visitBody {body : Node} (small : (node.nth 3).size ≤ size) (smallBody : body.size ≤ size) :
    Tracks relates (visitBody (visitWithin setting size) scope node body)
      (visitBody (visitWithin (setting.resolving resolves) size) scope node body) := by
  have statements := pairs.visitElements agree scope (smallBody.trans (Nat.le_succ size))
  unfold Reference.visitBody
  dsimp only
  split
  · exact pairs.sequence pairs.nothing_ok statements
  · exact pairs.sequence (agree scope _ small) statements

theorem visitFunction (small : ∀ position, (node.nth position).size ≤ size) :
    Tracks relates (visitFunction setting (visitWithin setting size) scope node)
      (visitFunction (setting.resolving resolves) (visitWithin (setting.resolving resolves) size)
        scope node) := by
  have head := pairs.visitDeclarator agree scope ((small 2).trans (Nat.le_succ size))
  have smallBody := small (node.length - 1)
  rw [Tree.nth_length_sub_one] at smallBody
  unfold Reference.visitFunction
  dsimp only
  split
  · refine head.bind fun _ _ early => .behind fun inner => ?_
    exact (pairs.visitBody agree (small 3) smallBody).bind fun _ _ late =>
      .ok (pairs.append early late)
  · exact .malformed ..

theorem visitDeclaration (small : ∀ position, (node.nth position).size ≤ size) :
    Tracks relates (visitDeclaration setting (visitWithin setting size) scope node)
      (visitDeclaration (setting.resolving resolves) (visitWithin (setting.resolving resolves) size)
        scope node) := by
  have types := pairs.visitType agree scope (small 1)
  unfold Reference.visitDeclaration
  split
  · exact pairs.sequence types (pairs.visitFunction agree small)
  · exact pairs.sequence types (pairs.visitDeclarators agree (small 2))

/-! ## Other constructs -/

theorem visitEnumerators (small : ∀ part ∈ (node.third.second.present.filter (·.isA .cons)).map
      (·.third), part.size ≤ size) :
    Tracks relates (visitEnumerators (visitWithin setting size) scope node)
      (visitEnumerators (visitWithin (setting.resolving resolves) size) scope node) :=
  pairs.visitAll fun part member => agree scope part (small part member)

theorem visitClass (small : (node.nth 3).size ≤ size) :
    Tracks relates (visitClass setting (visitWithin setting size) node)
      (visitClass (setting.resolving resolves) (visitWithin (setting.resolving resolves) size)
        node) := by
  unfold Reference.visitClass
  dsimp only
  split
  · exact pairs.nothing_ok
  · exact .behind fun inner => pairs.visitElements agree _ (small.trans (Nat.le_succ size))

/-- Only the callee of a call is treated in different ways. -/
theorem visitCall (small : ∀ position, (node.nth position).size ≤ size) :
    Tracks relates (visitCall setting (visitWithin setting size) scope node)
      (visitCall (setting.resolving resolves) (visitWithin (setting.resolving resolves) size) scope
        node) := by
  have operands := agree scope node.third (small 2)
  have callee := agree scope node.first (small 0)
  unfold Reference.visitCall
  dsimp only
  split
  · exact .malformed ..
  split
  · next name named =>
    cases calls : setting.resolveCalls with
    | false =>
      cases pairs.plain calls
      exact pairs.sequence callee operands
    | true =>
      have chosen := pairs.called calls scope node name named size (small 0)
      have both := pairs.sequence chosen operands
      unfold resolveCallee at both
      cases resolves with
      | false =>
        simp only [resolveCalls_resolving, bind_assoc, if_true, Bool.false_eq_true, if_false]
          at both ⊢
        exact both
      | true =>
        simp only [resolveCalls_resolving, bind_assoc, if_true] at both ⊢
        exact both
  · exact pairs.sequence callee operands

theorem visitNode (small : node.size ≤ size + 1) :
    Tracks relates (visitNode setting (visitWithin setting size) scope node)
      (visitNode (setting.resolving resolves) (visitWithin (setting.resolving resolves) size) scope
        node) := by
  have part : ∀ position, (node.nth position).size ≤ size := by
    intro position
    rcases Tree.nth_mem_elements node position with absent | member
    · rw [absent]
      exact Nat.zero_le size
    · exact Nat.le_of_lt_succ ((Tree.size_lt_of_mem_elements member).trans_le small)
  cases node with
  | nil => exact pairs.nothing_ok
  | leaf label token =>
    change Tracks relates (if _ then _ else _) (if _ then _ else _)
    split
    · exact pairs.lookUp _ _
    · exact pairs.nothing_ok
  | cell label construct name type head tail =>
    cases construct with
    | name =>
      cases name with
      | none => exact pairs.nothing_ok
      | some name => exact .behind fun use => pairs.lookUp _ use
    | namespaceSpec =>
      exact .behind fun inner => pairs.visitElements agree _ ((part 2).trans (Nat.le_succ size))
    | classSpec => exact pairs.visitClass agree (part 3)
    | enumSpec =>
      refine pairs.visitEnumerators agree fun value opens => ?_
      have list : (Tree.cell label .enumSpec name type head tail).isCell = true := rfl
      have smaller := size_lt_of_mem_opened list opens
      omega
    | declaration => exact pairs.visitDeclaration agree part
    | declarator => exact pairs.visitDeclarator agree _ small
    | templateDecl => exact .behind fun inner => agree inner _ (part 4)
    | block | forStatement => exact .behind fun inner => pairs.visitElements agree _ small
    | typedefDecl | usingDirective | usingDeclaration | accessSpec | typeId =>
      exact pairs.nothing_ok
    | funcallExpr => exact pairs.visitCall agree part
    | dotMemberExpr | arrowMemberExpr => exact agree scope _ (part 0)
    | castExpr | newExpr => exact agree scope _ (part 3)
    | parameterDeclaration | fstyleCastExpr | typeidExpr => exact agree scope _ (part 2)
    | sizeofExpr =>
      change Tracks relates (if _ = 2 then _ else _) (if _ = 2 then _ else _)
      split
      · exact agree scope _ (part 1)
      · exact pairs.nothing_ok
    | _ => exact pairs.visitElements agree _ small

end

/-- What both passes find is related throughout. -/
theorem agree (pairs : Pairs setting resolves relates) (size : Nat) :
    Agree setting resolves relates size := by
  induction size with
  | zero => exact fun _ _ _ => pairs.nothing_ok
  | succ size ih => exact fun scope node small => pairs.visitNode ih small

theorem findReferences (pairs : Pairs setting resolves relates) (tree : Node) :
    Tracks relates (findReferences setting tree)
      (findReferences (setting.resolving resolves) tree) :=
  pairs.visitElements (pairs.agree tree.size) _ (Nat.le_succ _)

end Pairs

end Reference
end CppNames
