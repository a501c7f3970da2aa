import CppNames.Proofs.Reference.Walk
import CppNames.Proofs.Tree.Place

namespace CppNames
namespace Reference

/-!
# Where the pass over uses looks

For each construct the pass over uses looks into certain parts of a node and into no others.
`opened` lists these parts.  The pass visits each of them, or it notes the part at once where it
is a name; of the words of a type it also notes those that are names.  `Entered` says what comes
of it, and `Covers` says this of one step of the pass: the parts that it enters stand apart in
the node, and no part that it opens is left out.

Nothing else about the pass is needed to tell what it finds, neither the scopes that it goes
through nor what a name means there.
-/

open CppNames.Tree (EachApart)

/-! ## Parts of a node -/

/-- Whether a word of a type is a class or an enumeration. -/
def specifies (word : Node) : Bool := word.isA .classSpec || word.isA .enumSpec

/-- The initializers of a constructor, where a definition has them in front of its body. -/
def initializers (node : Node) : Node :=
  if (node.nth 3).isA .block then .nil else node.nth 3

/-- The parts of a definition of a function: its declarator, the initializers of a constructor,
and the statements of its body. -/
def definitionParts (node : Node) : List Node :=
  node.third :: initializers node :: node.last.present

/-- The parts of a declaration: the classes and enumerations among the words of its type, and its
declarators. -/
def declarationParts (node : Node) : List Node :=
  node.second.typeWords.filter specifies ++
    if node.third.isA .declarator then definitionParts node
    else node.third.present.filter (·.isA .declarator)

/-- The parts of a node in which expressions can stand.  Type definitions and using-declarations,
types and names are closed, and so are the name that a declarator declares, the member behind
`.` or `->`, the words of a parameter's type and the parameters of a template. -/
def opened (node : Node) : List Node :=
  match node.construct? with
  | none => []
  | some construct =>
    match construct with
    | .namespaceSpec => node.third.present
    | .classSpec => (node.nth 3).present
    | .enumSpec => (node.third.second.present.filter (·.isA .cons)).map (·.third)
    | .declaration => declarationParts node
    | .declarator => node.present.eraseP (·.isDeclaredName)
    | .parameterDeclaration | .fstyleCastExpr | .typeidExpr => [node.third]
    | .templateDecl => [node.nth 4]
    | .typedefDecl | .usingDirective | .usingDeclaration | .accessSpec | .typeId | .name => []
    | .funcallExpr => [node.first, node.third]
    | .dotMemberExpr | .arrowMemberExpr => [node.first]
    | .castExpr | .newExpr => [node.nth 3]
    | .sizeofExpr => if node.length = 2 then [node.second] else []
    | _ => node.present

/-- The statements of a body are opened in the definition of the function. -/
theorem mem_opened_of_body {node statement : Node} (declares : node.isA .declaration = true)
    (defines : node.third.isA .declarator = true) (member : statement ∈ node.last.present) :
    statement ∈ opened node := by
  unfold opened
  rw [eq_of_beq declares]
  change statement ∈ declarationParts node
  unfold declarationParts
  rw [if_pos defines]
  apply List.mem_append_right
  exact List.mem_cons_of_mem _ (List.mem_cons_of_mem _ member)

/-! ## Entered parts -/

/-- A node is an identifier or a name that carries its encoding. -/
def IsNamed (node : Node) : Prop := node.calleeName?.isSome = true

theorem isNamed_leaf (label : Tree.NodeId) (token : Token) :
    IsNamed (.leaf label token) ↔ token.kind = .identifier := by
  simp [IsNamed, Tree.calleeName?, Tree.isLeaf, Tree.encodedName?]

theorem isNamed_cell {label : Tree.NodeId} {construct : Construct} {name type : Option Encoding}
    {head tail : Node} : IsNamed (.cell label construct name type head tail) ↔
      construct = .name ∧ name.isSome = true := by
  by_cases isName : construct = .name
  · subst isName
    exact (and_iff_right rfl).symm
  · simp [IsNamed, Tree.calleeName?, Tree.isLeaf, Tree.isA, Tree.construct?, isName]

theorem not_isNamed_nil : ¬ IsNamed .nil := Bool.false_ne_true

theorem IsNamed.isNil_eq {node : Node} (named : IsNamed node) : node.isNil = false := by
  cases node with
  | nil => exact absurd named not_isNamed_nil
  | leaf label token | cell label construct name type head tail => rfl

/-- What comes of some parts of a node, one after the other: a part is visited, or noted at once
where it is a name. -/
inductive Entered (setting : Setting) (size : Nat) : List Node → List Reference → Prop where
  | nil : Entered setting size [] []
  | visited {part : Node} {parts : List Node} {scope : ScopeId} {room : Nat} {findings : Findings}
    {references : List Reference} : size ≤ room →
    visitWithin setting room scope part = .ok findings → Entered setting size parts references →
    Entered setting size (part :: parts) (findings.references ++ references)
  | noted {part : Node} {parts : List Node} {reference : Reference}
    {references : List Reference} : IsNamed part → reference.span = part.hull? →
    Entered setting size parts references →
    Entered setting size (part :: parts) (reference :: references)

variable {setting : Setting} {size : Nat} {scope : ScopeId}

theorem Entered.append {front back : List Node} {early late : List Reference}
    (first : Entered setting size front early) (second : Entered setting size back late) :
    Entered setting size (front ++ back) (early ++ late) := by
  induction first with
  | nil => exact second
  | visited room visits _ ih =>
    rw [List.append_assoc]
    exact .visited room visits ih
  | noted isName span _ ih => exact .noted isName span ih

/-! ## Results -/

/-- Whatever a computation gives has a property. -/
def Gives {α ε : Type} (step : Except ε α) (post : α → Prop) : Prop :=
  ∀ value, step = .ok value → post value

namespace Gives

variable {α β ε : Type} {post : α → Prop}

theorem ok {value : α} (holds : post value) : Gives (.ok value : Except ε α) post := by
  intro other same
  cases same
  exact holds

theorem bind {first : Except ε β} {next : β → Except ε α}
    (rest : ∀ value, first = .ok value → Gives (next value) post) :
    Gives (first >>= next) post := by
  intro value same
  cases ends : first with
  | error error => rw [ends] at same; cases same
  | ok middle =>
    rw [ends] at same
    exact rest middle ends value same

theorem answer {outcome : Outcome α} (gives : Gives outcome post) :
    Gives (Reference.answer outcome) post := by
  intro value same
  cases outcome with
  | error fault => cases same
  | ok other =>
    cases same
    exact gives _ rfl

end Gives

/-- What a step of the pass finds, it finds in parts that stand apart in some trees, and the
parts that it has to open are among them. -/
def Covers (setting : Setting) (size : Nat) (trees wanted : List Node) (step : Step) : Prop :=
  Gives step fun findings => ∃ parts, Entered setting size parts findings.references ∧
    EachApart trees parts ∧ (∀ part ∈ parts, part.isNil = false) ∧
    ∀ part ∈ wanted, part.isNil = false → part ∈ parts

namespace Covers

variable {trees wanted treesBehind wantedBehind : List Node} {step stepBehind : Step} {node : Node}

theorem nothing (setting : Setting) (size : Nat) (trees : List Node) :
    Covers setting size trees [] (.ok {}) := by
  refine .ok ⟨[], .nil, .none _, ?_, ?_⟩
  · exact fun part member => absurd member List.not_mem_nil
  · exact fun part member => absurd member List.not_mem_nil

/-- A step behind a computation that is no part of the pass. -/
theorem bind {α : Type} {first : Except PassError α} {next : α → Step}
    (rest : ∀ value, Covers setting size trees wanted (next value)) :
    Covers setting size trees wanted (first >>= next) :=
  Gives.bind fun value _ => rest value

theorem append (first : Covers setting size trees wanted step)
    (second : Covers setting size treesBehind wantedBehind stepBehind) :
    Covers setting size (trees ++ treesBehind) (wanted ++ wantedBehind)
      (do let front ← step; let back ← stepBehind; return front ++ back) := by
  refine Gives.bind fun front early => Gives.bind fun back late => .ok ?_
  rcases first front early with ⟨parts, entered, apart, there, all⟩
  rcases second back late with ⟨more, enteredMore, apartMore, thereMore, allMore⟩
  refine ⟨parts ++ more, entered.append enteredMore, apart.append apartMore,
    List.forall_mem_append.mpr ⟨there, thereMore⟩, fun part member present => ?_⟩
  rcases List.mem_append.mp member with inside | behind
  · exact List.mem_append_left _ (all part inside present)
  · exact List.mem_append_right _ (allMore part behind present)

/-- What stands apart in some trees stands apart in those around them. -/
theorem trans {many : List Node} (covers : Covers setting size trees wanted step)
    (inside : ∀ nodes, (∀ node ∈ nodes, node.isNil = false) → EachApart trees nodes →
      EachApart many nodes) : Covers setting size many wanted step := by
  intro findings same
  rcases covers findings same with ⟨parts, entered, apart, there, all⟩
  exact ⟨parts, entered, inside parts there apart, there, all⟩

theorem within {many : List Node} (covers : Covers setting size trees wanted step)
    (inside : (trees.filter (!·.isNil)).Sublist many) : Covers setting size many wanted step :=
  covers.trans fun _ there apart => (apart.filter_isNil there).of_sublist inside

theorem fewer {few : List Node} (covers : Covers setting size trees wanted step)
    (inside : few ⊆ wanted) : Covers setting size trees few step := by
  intro findings same
  rcases covers findings same with ⟨parts, entered, apart, there, all⟩
  exact ⟨parts, entered, apart, there, fun part member => all part (inside member)⟩

/-- What stands in a list stands in the node that the list is. -/
theorem inside (covers : Covers setting size node.elements wanted step) :
    Covers setting size [node] wanted step :=
  covers.trans fun _ _ apart => .single (.elements apart)

theorem absent (there : node.isNil = true) : Covers setting size [node] [node] (.ok {}) := by
  refine .ok ⟨[], .nil, .none _, fun part member => absurd member List.not_mem_nil, ?_⟩
  intro part member present
  rw [List.mem_singleton.mp member, there] at present
  cases present

/-- A visit finds what is in the node that it visits. -/
theorem visit (node : Node) {room : Nat} (enough : size ≤ room) :
    Covers setting size [node] [node] (visitWithin setting room scope node) := by
  intro findings same
  cases there : node.isNil with
  | true =>
    have nothing : findings = {} := by
      cases node with
      | nil => cases room <;> exact (Except.ok.inj same).symm
      | leaf label token | cell label construct name type head tail => cases there
    rw [nothing]
    exact absent there {} rfl
  | false =>
    have entered := Entered.visited enough same .nil
    rw [List.append_nil] at entered
    exact ⟨[node], entered, .single (.whole node), List.forall_mem_singleton.mpr there,
      fun part member _ => member⟩

/-- Visits to some nodes in turn. -/
theorem visitAll {visit : Visit} {wanted : Node → List Node} {nodes : List Node}
    (each : ∀ node ∈ nodes, Covers setting size [node] (wanted node) (visit scope node)) :
    Covers setting size nodes (nodes.flatMap wanted) (Reference.visitAll visit scope nodes) := by
  induction nodes with
  | nil => exact nothing setting size []
  | cons node nodes ih =>
    rcases List.forall_mem_cons.mp each with ⟨own, rest⟩
    have both := append own (ih rest)
    intro findings same
    apply both
    unfold Reference.visitAll at same ⊢
    rw [List.mapM_cons] at same
    simp only [bind_assoc, pure_bind] at same ⊢
    exact same

/-- Visits to the elements of a node. -/
theorem visitElements (node : Node) {room : Nat} (enough : size ≤ room) :
    Covers setting size node.elements node.present
      (Reference.visitElements (visitWithin setting room) scope node) := by
  have each : ∀ element ∈ node.present, Covers setting size [element] ((fun part => [part]) element)
      (visitWithin setting room scope element) := fun element _ => visit element enough
  have all := visitAll each
  rw [List.flatMap_singleton'] at all
  exact all.within (List.filter_sublist.trans List.filter_sublist)

/-- A visit to the element at a position. -/
theorem visitNth (node : Node) (position : Nat) : Covers setting size node.elements
    [node.nth position] (visitWithin setting size scope (node.nth position)) :=
  (visit _ (Nat.le_refl size)).within (node.nth_sublist position)

end Covers

/-! ## Noted names -/

/-- One use of a name is found. -/
def Once (span : Option Span) (findings : Findings) : Prop :=
  ∃ reference, findings.references = [reference] ∧ reference.span = span

theorem once_ofUse (site : Site) (file : String) (context : LookupContext) (use : Use) :
    Gives (ofUse site file context use) (Once use.span) := by
  refine .bind fun looked _ => ?_
  cases looked with
  | ok found => exact .bind fun resolution _ => .bind fun log _ => .ok ⟨_, rfl, rfl⟩
  | error error => exact .bind fun report _ => .ok ⟨_, rfl, rfl⟩

theorem once_ofCall (site : Site) (file : String) (call : Node) (use : Use) :
    Gives (ofCall site file call use) (Once use.span) := by
  refine .bind fun called _ => ?_
  cases called with
  | ok id => exact .ok ⟨_, rfl, rfl⟩
  | error error => exact .bind fun report _ => .bind fun resolution _ => .ok ⟨_, rfl, rfl⟩

theorem once_lookUp (setting : Setting) (context : LookupContext) (scope : ScopeId) (use : Use) :
    Gives (lookUp setting context scope use) (Once use.span) :=
  (once_ofUse _ _ _ _).answer

/-- The use of a name by a node stands where the node stands. -/
theorem span_ofNode (name : Encoding) (node : Node) :
    Gives (Use.ofNode name node) fun use => use.span = node.hull? :=
  .bind fun _ placed => .ok (Tree.eq_hull?_of_place placed)

/-- A use of a node that is resolved at once. -/
theorem once_ofNode {name : Encoding} {node : Node} {resolve : Use → Step}
    (once : ∀ use, Gives (resolve use) (Once use.span)) :
    Gives (do resolve (← answer (Use.ofNode name node))) (Once node.hull?) := by
  refine .bind fun use same => ?_
  have span := (span_ofNode name node).answer use same
  rw [← span]
  exact once use

/-- A name that is noted at once. -/
theorem Covers.noted {node : Node} {step : Step} (named : IsNamed node)
    (once : Gives step (Once node.hull?)) : Covers setting size [node] [node] step := by
  intro findings same
  rcases once findings same with ⟨reference, only, span⟩
  rw [only]
  exact ⟨[node], .noted named span .nil, .single (.whole node),
    List.forall_mem_singleton.mpr named.isNil_eq, fun part member _ => member⟩

/-! ## Declarations -/

theorem covers_malformed {trees wanted : List Node} (node : Node) (construct : Construct)
    (expected : Expectation) :
    Covers setting size trees wanted (malformed node construct expected) := by
  refine Covers.bind fun error findings same => ?_
  cases same

theorem covers_visitTypeWord (word : Node) : Covers setting size [word]
    (if specifies word then [word] else [])
    (visitTypeWord setting (visitWithin setting size) scope word) := by
  unfold visitTypeWord specifies
  split
  · exact .visit word (Nat.le_refl size)
  · refine .bind fun inBody => ?_
    split
    · split
      · next name called =>
        exact (Covers.noted (Option.isSome_of_eq_some called)
          (once_ofNode fun use => once_lookUp _ _ _ use)).fewer (List.nil_subset _)
      · exact .nothing _ _ _
    · exact .nothing _ _ _

theorem covers_visitType (words : Node) : Covers setting size [words]
    (words.typeWords.filter specifies)
    (visitType setting (visitWithin setting size) scope words) := by
  have each : ∀ word ∈ words.typeWords, Covers setting size [word]
      ((fun word => if specifies word then [word] else []) word)
      (visitTypeWord setting (visitWithin setting size) scope word) :=
    fun word _ => covers_visitTypeWord word
  refine ((Covers.visitAll each).trans fun nodes _ apart => ?_).fewer fun word member => ?_
  · exact .single ((Tree.eachApart_typeWords words).1 nodes apart)
  · have both := List.mem_filter.mp member
    refine List.mem_flatMap.mpr ⟨word, both.1, ?_⟩
    rw [if_pos both.2]
    exact List.mem_singleton_self word

/-- The parameters of a function are visited as a list, in whatever scope. -/
theorem covers_visitDeclaratorElement (prototype : Option ScopeId) (element : Node) :
    Covers setting size [element] [element]
      (visitDeclaratorElement (visitWithin setting size) prototype scope element) := by
  unfold visitDeclaratorElement
  split
  · split
    · next list =>
      rw [← visitWithin_cons list]
      exact .visit element (Nat.le_succ size)
    · exact .visit element (Nat.le_refl size)
  · exact .visit element (Nat.le_refl size)

theorem covers_visitDeclarator (declarator : Node) : Covers setting size declarator.elements
    (declarator.present.eraseP (·.isDeclaredName))
    (visitDeclarator setting (visitWithin setting size) scope declarator) := by
  have each : ∀ element ∈ declarator.present.eraseP (·.isDeclaredName),
      Covers setting size [element] ((fun part => [part]) element)
        (visitDeclaratorElement (visitWithin setting size)
          (setting.annotations.scope? declarator) scope element) :=
    fun element _ => covers_visitDeclaratorElement _ element
  have all := Covers.visitAll each
  rw [List.flatMap_singleton'] at all
  exact all.within
    (List.filter_sublist.trans (List.eraseP_sublist.trans List.filter_sublist))

/-- Visiting a declarator means to visit what is in it. -/
theorem visitWithin_declarator {node : Node} (declares : node.isA .declarator = true)
    (setting : Setting) (size : Nat) (scope : ScopeId) :
    visitWithin setting (size + 1) scope node =
      visitDeclarator setting (visitWithin setting size) scope node := by
  rcases isA_cell declares with ⟨label, name, type, head, tail, rfl⟩
  rfl

theorem covers_declarator {node : Node} (declares : node.isA .declarator = true) :
    Covers setting size [node] [node]
      (visitDeclarator setting (visitWithin setting size) scope node) := by
  rw [← visitWithin_declarator declares]
  exact .visit node (Nat.le_succ size)

theorem covers_visitDeclarators (list : Node) : Covers setting size [list]
    (list.present.filter (·.isA .declarator))
    (visitDeclarators setting (visitWithin setting size) scope list) := by
  have each : ∀ declarator ∈ list.present.filter (·.isA .declarator),
      Covers setting size [declarator] ((fun part => [part]) declarator)
        (visitDeclarator setting (visitWithin setting size) scope declarator) :=
    fun declarator member => covers_declarator (List.mem_filter.mp member).2
  have all := Covers.visitAll each
  rw [List.flatMap_singleton'] at all
  exact (all.within ((List.filter_sublist.trans List.filter_sublist).trans
    List.filter_sublist)).inside

theorem covers_visitBody (node body : Node) : Covers setting size [initializers node, body]
    (initializers node :: body.present)
    (visitBody (visitWithin setting size) scope node body) := by
  have elements : Covers setting size [body] body.present
      (visitElements (visitWithin setting size) scope body) :=
    (Covers.visitElements body (Nat.le_refl size)).inside
  unfold visitBody
  dsimp only
  split
  · next none =>
    refine .append (Covers.absent ?_) elements
    unfold initializers
    split
    · rfl
    · next other => simpa [other] using none
  · next some =>
    have both : (node.nth 3).isNil = false ∧ (node.nth 3).isA .block = false := by
      simpa using some
    unfold initializers
    rw [both.2]
    exact .append (.visit _ (Nat.le_refl size)) elements

theorem covers_visitFunction {node : Node} (declares : node.third.isA .declarator = true)
    (braced : node.last.isA .block = true) :
    Covers setting size [node.third, initializers node, node.last] (definitionParts node)
      (visitFunction setting (visitWithin setting size) scope node) := by
  have head : Covers setting size [node.third] [node.third]
      (visitDeclarator setting (visitWithin setting size) scope node.third) :=
    covers_declarator declares
  have body : Covers setting size [initializers node, node.last]
      (initializers node :: node.last.present) (do
        let inner ← setting.scopeOf node .declaration
        visitBody (visitWithin setting size) inner node node.last) :=
    .bind fun inner => covers_visitBody node node.last
  have both := head.append body
  unfold visitFunction
  dsimp only
  rw [if_pos braced]
  simp only [bind_assoc] at both
  exact both

/-- The definition of a function without a body gives nothing. -/
theorem covers_visitFunction_unbraced {node : Node} (unbraced : ¬ node.last.isA .block = true) :
    Covers setting size [] (definitionParts node)
      (visitFunction setting (visitWithin setting size) scope node) := by
  unfold visitFunction
  dsimp only
  rw [if_neg unbraced]
  exact covers_malformed _ _ _

theorem covers_visitDeclaration (node : Node) :
    Covers setting size node.elements (declarationParts node)
      (visitDeclaration setting (visitWithin setting size) scope node) := by
  have types : Covers setting size [node.second] (node.second.typeWords.filter specifies)
      (visitType setting (visitWithin setting size) scope node.second) :=
    covers_visitType node.second
  unfold visitDeclaration declarationParts
  split
  · next declares =>
    by_cases braced : node.last.isA .block = true
    · exact (types.append (covers_visitFunction declares braced)).within
        (Tree.definition_sublist declares braced)
    · exact (types.append (covers_visitFunction_unbraced braced)).within (node.nth_sublist 1)
  · exact (types.append (covers_visitDeclarators node.third)).within
      (node.pair_sublist (by decide : 1 < 2))

/-! ## Other constructs -/

theorem covers_visitEnumerators (node : Node) : Covers setting size node.elements
    ((node.third.second.present.filter (·.isA .cons)).map (·.third))
    (visitEnumerators (visitWithin setting size) scope node) := by
  have each : ∀ value ∈ (node.third.second.present.filter (·.isA .cons)).map (·.third),
      Covers setting size [value] ((fun part => [part]) value)
        (visitWithin setting size scope value) := fun value _ => .visit value (Nat.le_refl size)
  have all := Covers.visitAll each
  rw [List.flatMap_singleton'] at all
  refine all.trans fun nodes there apart => ?_
  have items := apart.of_map_nth there
  have list : EachApart [node.third.second] nodes :=
    .single (.elements (items.of_sublist (List.filter_sublist.trans List.filter_sublist)))
  have braces : EachApart [node.third] nodes :=
    .single (.elements ((list.filter_isNil there).of_sublist (node.third.nth_sublist 1)))
  exact (braces.filter_isNil there).of_sublist (node.nth_sublist 2)

theorem covers_visitClass (node : Node) : Covers setting size node.elements (node.nth 3).present
    (visitClass setting (visitWithin setting size) node) := by
  unfold visitClass
  dsimp only
  split
  · next none =>
    have absent : (node.nth 3).present = [] := by
      cases body : node.nth 3 with
      | nil => rfl
      | leaf label token | cell label construct name type head tail => rw [body] at none; cases none
    rw [absent]
    exact .nothing _ _ _
  · refine Covers.bind fun inner => ?_
    exact (Covers.visitElements _ (Nat.le_refl size)).inside.within (node.nth_sublist 3)

theorem covers_visitCall (node : Node) : Covers setting size node.elements
    [node.first, node.third] (visitCall setting (visitWithin setting size) scope node) := by
  have operands : Covers setting size [node.third] [node.third]
      (visitWithin setting size scope node.third) := .visit _ (Nat.le_refl size)
  have behind : ∀ step, Covers setting size [node.first] [node.first] step →
      Covers setting size node.elements [node.first, node.third]
        (do let called ← step; let found ← visitWithin setting size scope node.third
            return called ++ found) := by
    intro step callee
    exact (callee.append operands).within (node.pair_sublist (by decide : 0 < 2))
  have callee : Covers setting size [node.first] [node.first]
      (visitWithin setting size scope node.first) := .visit _ (Nat.le_refl size)
  unfold visitCall
  dsimp only
  split
  · exact covers_malformed _ _ _
  · split
    · next name called =>
      split
      · have chosen : Covers setting size [node.first] [node.first] (do
            let use ← answer (Use.ofNode name node.first)
            answer (ofCall (setting.site scope) setting.file node use)) :=
          .noted (Option.isSome_of_eq_some called)
            (once_ofNode fun use => (once_ofCall _ _ _ use).answer)
        have whole := behind _ chosen
        simp only [bind_assoc] at whole ⊢
        exact whole
      · exact behind _ callee
    · exact behind _ callee

/-- What a visit to a list other than a name finds, it finds in parts of the list. -/
theorem covers_visitNode {node : Node} (list : node.isCell = true)
    (other : node.isA .name = false) : Covers setting size node.elements (opened node)
      (visitNode setting (visitWithin setting size) scope node) := by
  have enough := Nat.le_refl size
  cases node with
  | nil | leaf label token => cases list
  | cell label construct name type head tail =>
    cases construct with
    | name => cases other
    | namespaceSpec =>
      refine Covers.bind fun inner => ?_
      exact (Covers.visitElements _ enough).inside.within (Tree.nth_sublist _ 2)
    | classSpec => exact covers_visitClass _
    | enumSpec => exact covers_visitEnumerators _
    | declaration => exact covers_visitDeclaration _
    | declarator => exact covers_visitDeclarator _
    | templateDecl => exact Covers.bind fun inner => .visitNth _ 4
    | block | forStatement => exact Covers.bind fun inner => .visitElements _ enough
    | typedefDecl | usingDirective | usingDeclaration | accessSpec | typeId =>
      exact .nothing _ _ _
    | funcallExpr => exact covers_visitCall _
    | dotMemberExpr | arrowMemberExpr => exact .visitNth _ 0
    | castExpr | newExpr => exact .visitNth _ 3
    | parameterDeclaration | fstyleCastExpr | typeidExpr => exact .visitNth _ 2
    | sizeofExpr =>
      change Covers setting size _ (if _ = 2 then _ else _) (if _ = 2 then _ else _)
      split
      · exact .visitNth _ 1
      · exact .nothing _ _ _
    | _ => exact .visitElements _ enough

end Reference
end CppNames
