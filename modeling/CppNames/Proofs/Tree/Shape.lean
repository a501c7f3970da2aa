import CppNames.Tree.Parts

namespace CppNames

/-!
# The shapes of constructs

The passes behind the parser index into the lists of a tree and ask for the names that they
carry.  `Fits` says for one cell what they ask of it, construct by construct, and
`Throughout` asks it of every cell of a tree.

The pass that finds uses also asks for the scopes that binding notes on nodes, and it comes
to some nodes that binding does not visit by itself: the parts of declarators, the operands
of casts, the values of enumerators.  No scope is ever noted below these.  `Unscoped` says of
a tree that this pass meets no node in it that needs one, so it does not matter whether
binding came there.

Neither property looks at labels, so both pass from a tree to its numbering.
-/

/-- The constructs that the pass over uses does not look into. -/
def Construct.isOpaque : Construct → Bool
  | .typedefDecl | .usingDirective | .usingDeclaration | .accessSpec | .typeId | .name => true
  | _ => false

/-- The constructs that have no scope and are looked into: lists, declarators and
expressions. -/
def Construct.isTransparent (construct : Construct) : Bool :=
  construct.isExpression || [.cons, .brace, .declarator].contains construct

/-- The constructs of which not every part is visited by binding. -/
def Construct.hidesParts : Construct → Bool
  | .declarator | .parameterDeclaration | .funcallExpr | .dotMemberExpr | .arrowMemberExpr
  | .castExpr | .newExpr | .fstyleCastExpr | .typeidExpr | .sizeofExpr => true
  | _ => false

namespace Tree

variable {ι : Type}

/-- A tree in which the pass over uses meets no node that needs a scope, and no call without a
callee. -/
inductive Unscoped : Tree ι → Prop where
  | nil : Unscoped nil
  | leaf (label : ι) (token : Token) : Unscoped (leaf label token)
  | closed {label : ι} {construct : Construct} {name type : Option Encoding} {head tail : Tree ι} :
    construct.isOpaque = true → Unscoped (cell label construct name type head tail)
  /-- Of a parameter only the declarator is looked into. -/
  | parameter {label : ι} {name type : Option Encoding} {head tail : Tree ι} :
    Unscoped (cell label .parameterDeclaration name type head tail).third →
    Unscoped (cell label .parameterDeclaration name type head tail)
  | parts {label : ι} {construct : Construct} {name type : Option Encoding} {head tail : Tree ι} :
    construct.isTransparent = true → (construct = .funcallExpr → head.isNil = false) →
    (∀ element ∈ head :: tail.chain, Unscoped element) →
    Unscoped (cell label construct name type head tail)

/-- A declaration as the passes expect it: the definition of a function with a named
declarator and a body, or a list of declarators. -/
def FitsDeclaration (tree : Tree ι) : Prop :=
  if tree.third.isA .declarator then
    tree.third.name?.isSome = true ∧ tree.last.isA .block = true ∧ Unscoped tree.third
  else ∀ declarator ∈ tree.third.present, declarator.isA .declarator = true → Unscoped declarator

/-- An enumeration as the passes expect it. -/
def FitsEnum (tree : Tree ι) : Prop :=
  (tree.third.isNil = true ∨ tree.third.isA .brace = true) ∧ tree.name?.isSome = true ∧
    ∀ item ∈ tree.third.second.present, item.isA .cons = true → Unscoped item.third

/-- What the passes ask of a list that spells a construct. -/
def FitsAs (construct : Construct) (tree : Tree ι) : Prop :=
  match construct with
  | .namespaceSpec => tree.third.isA .brace = true
  | .classSpec =>
    ((tree.nth 3).isNil = true ∨ (tree.nth 3).isA .classBody = true) ∧ tree.name?.isSome = true
  | .enumSpec => FitsEnum tree
  | .declaration => FitsDeclaration tree
  | .templateDecl => (tree.nth 4).isNil = false
  | .forStatement => (tree.nth 7).isNil = false
  | .usingDirective | .usingDeclaration => tree.name?.isSome = true
  | other => other.hidesParts = true → Unscoped tree

/-- What the passes ask of one cell. -/
def Fits (tree : Tree ι) : Prop :=
  match tree.construct? with
  | none => True
  | some construct => FitsAs construct tree

/-- A property of all cells of a tree. -/
def Throughout (property : Tree ι → Prop) : Tree ι → Prop
  | nil => True
  | leaf _ _ => True
  | cell label construct name type head tail =>
    property (cell label construct name type head tail) ∧
      Throughout property head ∧ Throughout property tail

/-! ## Parts of a tree -/

theorem mem_present {tree element : Tree ι} (member : element ∈ tree.present) :
    element ∈ tree.elements ∧ element.isNil = false := by
  have both := List.mem_filter.mp member
  exact ⟨both.1, by simpa using both.2⟩

theorem eq_nil_of_isNil {tree : Tree ι} (absent : tree.isNil = true) : tree = nil := by
  cases tree with
  | nil => rfl
  | _ => cases absent

theorem head_drop_eq_getD (count : Nat) (rest : Tree ι) :
    (rest.drop count).head = rest.chain.getD count nil := by
  induction count generalizing rest with
  | zero => cases rest <;> rfl
  | succ count ih =>
    cases rest with
    | nil | leaf label token =>
      have absent := ih (nil : Tree ι)
      simpa [drop, dropped, tail, chain] using absent
    | cell label construct name type head tail => exact ih tail

theorem nth_eq_getD (tree : Tree ι) (position : Nat) :
    tree.nth position = tree.elements.getD position nil := by
  cases tree with
  | nil => exact head_drop_eq_getD position nil
  | leaf label token =>
    cases position with
    | zero => rfl
    | succ position => exact head_drop_eq_getD (position + 1) (leaf label token)
  | cell label construct name type head tail =>
    exact head_drop_eq_getD position (cell label construct name type head tail)

/-- What stands at a position is absent or an element. -/
theorem nth_mem_elements (tree : Tree ι) (position : Nat) :
    tree.nth position = nil ∨ tree.nth position ∈ tree.elements := by
  rw [nth_eq_getD, List.getD_eq_getElem?_getD]
  cases found : tree.elements[position]? with
  | none => exact .inl rfl
  | some element => exact .inr (List.mem_of_getElem? found)

theorem nth_mem_present {tree : Tree ι} {position : Nat} {construct : Construct}
    (spells : (tree.nth position).construct? = some construct) :
    tree.nth position ∈ tree.present := by
  have there : (tree.nth position).isNil = false := by
    cases element : tree.nth position with
    | nil => rw [element] at spells; cases spells
    | leaf label token | cell label construct name type head tail => rfl
  rcases nth_mem_elements tree position with absent | member
  · rw [absent] at there
    cases there
  · exact List.mem_filter.mpr ⟨member, by rw [there]; rfl⟩

theorem Throughout.chain {property : Tree ι → Prop} {tree : Tree ι}
    (holds : Throughout property tree) : ∀ element ∈ tree.chain, Throughout property element := by
  induction tree with
  | nil => exact fun element member => absurd member (List.not_mem_nil)
  | leaf label token =>
    intro element member
    rw [List.mem_singleton.mp member]
    trivial
  | cell label construct name type head tail _ ih =>
    intro element member
    rcases List.mem_cons.mp member with same | behind
    · rw [same]
      exact holds.2.1
    · exact ih holds.2.2 element behind

theorem Throughout.elements {property : Tree ι → Prop} {tree : Tree ι}
    (holds : Throughout property tree) :
    ∀ element ∈ tree.elements, Throughout property element := by
  cases tree with
  | nil => exact fun element member => absurd member (List.not_mem_nil)
  | leaf label token => exact fun element member => absurd member (List.not_mem_nil)
  | cell label construct name type head tail => exact Throughout.chain holds

theorem Throughout.present {property : Tree ι → Prop} {tree : Tree ι}
    (holds : Throughout property tree) : ∀ element ∈ tree.present, Throughout property element :=
  fun element member => holds.elements element (mem_present member).1

theorem Throughout.nth {property : Tree ι → Prop} {tree : Tree ι}
    (holds : Throughout property tree) (position : Nat) :
    Throughout property (tree.nth position) := by
  rcases nth_mem_elements tree position with absent | member
  · rw [absent]
    trivial
  · exact holds.elements _ member

theorem Throughout.last {property : Tree ι → Prop} {tree : Tree ι}
    (holds : Throughout property tree) : Throughout property tree.last := by
  have shown : tree.last = nil ∨ tree.last ∈ tree.elements := by
    unfold Tree.last
    cases elements : tree.elements with
    | nil => exact .inl rfl
    | cons first rest =>
      rw [List.getLastD_cons, List.getLastD_eq_getLast?]
      cases ends : rest.getLast? with
      | none => exact .inr (List.mem_cons_self ..)
      | some final => exact .inr (List.mem_cons_of_mem _ (List.mem_of_getLast? ends))
  rcases shown with absent | member
  · rw [absent]
    trivial
  · exact holds.elements _ member

theorem Throughout.self {property : Tree ι → Prop} {tree : Tree ι}
    (holds : Throughout property tree) (list : tree.isCell = true) : property tree := by
  cases tree with
  | nil => cases list
  | leaf label token => cases list
  | cell label construct name type head tail => exact holds.1

theorem isCell_of_construct? {tree : Tree ι} {construct : Construct}
    (spells : tree.construct? = some construct) : tree.isCell = true := by
  cases tree with
  | nil => cases spells
  | leaf label token => cases spells
  | cell label construct name type head tail => rfl

/-- What is asked of a list that spells a given construct. -/
theorem Throughout.ofConstruct {tree : Tree ι} {construct : Construct}
    (fits : Throughout Fits tree) (spells : tree.construct? = some construct) :
    FitsAs construct tree := by
  have own := fits.self (isCell_of_construct? spells)
  unfold Fits at own
  rw [spells] at own
  exact own

theorem unscoped_of_isOpaque {tree : Tree ι} {construct : Construct}
    (spells : tree.construct? = some construct) (isOpaque : construct.isOpaque = true) :
    Unscoped tree := by
  cases tree with
  | nil => exact .nil
  | leaf label token => exact .leaf label token
  | cell label other name type head tail =>
    cases spells
    exact .closed isOpaque

/-! ## Trees without labels -/

/-- The tree without its labels. -/
def strip : Tree ι → Plain
  | nil => nil
  | leaf _ token => leaf () token
  | cell _ construct name type head tail => cell () construct name type head.strip tail.strip

section Strip

variable (tree : Tree ι)

@[simp] theorem isNil_strip : tree.strip.isNil = tree.isNil := by cases tree <;> rfl

@[simp] theorem construct?_strip : tree.strip.construct? = tree.construct? := by
  cases tree <;> rfl

@[simp] theorem isA_strip (construct : Construct) :
    tree.strip.isA construct = tree.isA construct := by simp [isA]

@[simp] theorem name?_strip : tree.strip.name? = tree.name? := by cases tree <;> rfl

@[simp] theorem tokens_strip : tree.strip.tokens = tree.tokens := by
  induction tree <;> simp_all [strip, tokens]

theorem dropped_strip (count : Nat) : dropped count tree.strip = (dropped count tree).strip := by
  induction count generalizing tree with
  | zero => rfl
  | succ count ih =>
    cases tree with
    | nil => exact ih nil
    | leaf label token => exact ih nil
    | cell label construct name type head tail => exact ih tail

@[simp] theorem nth_strip (position : Nat) : tree.strip.nth position = (tree.nth position).strip := by
  unfold nth drop
  rw [dropped_strip]
  cases dropped position tree <;> rfl

@[simp] theorem second_strip : tree.strip.second = tree.second.strip := nth_strip tree 1

@[simp] theorem third_strip : tree.strip.third = tree.third.strip := nth_strip tree 2

theorem chain_strip : tree.strip.chain = tree.chain.map strip := by
  induction tree <;> simp_all [strip, chain]

@[simp] theorem elements_strip : tree.strip.elements = tree.elements.map strip := by
  cases tree <;> simp [strip, elements, chain_strip]

@[simp] theorem present_strip : tree.strip.present = tree.present.map strip := by
  simp only [present, elements_strip, List.filter_map]
  congr 1
  apply List.filter_congr
  intro element _
  simp

@[simp] theorem last_strip : tree.strip.last = tree.last.strip := by
  simp only [last, elements_strip, List.getLastD_eq_getLast?, List.getLast?_map]
  cases tree.elements.getLast? <;> rfl

end Strip

theorem Unscoped.of_strip {tree : Tree ι} (unscoped : Unscoped tree.strip) : Unscoped tree := by
  generalize same : tree.strip = stripped at unscoped
  induction unscoped generalizing tree with
  | nil => cases tree <;> cases same; exact .nil
  | leaf label token => cases tree <;> cases same; exact .leaf ..
  | closed isOpaque => cases tree <;> cases same; exact .closed isOpaque
  | parameter third ih =>
    cases tree <;> cases same
    exact .parameter (ih (by rw [← third_strip]; rfl))
  | parts transparent callee elements ih =>
    cases tree <;> cases same
    refine .parts transparent (by simpa using callee) ?_
    intro element member
    refine ih element.strip ?_ rfl
    rcases List.mem_cons.mp member with same | member
    · rw [same]
      exact List.mem_cons_self ..
    · rw [chain_strip]
      exact List.mem_cons_of_mem _ (List.mem_map_of_mem member)

theorem FitsEnum.of_strip {tree : Tree ι} (fits : FitsEnum tree.strip) : FitsEnum tree := by
  simp only [FitsEnum, third_strip, second_strip, isNil_strip, isA_strip, name?_strip,
    present_strip, List.forall_mem_map] at fits
  exact ⟨fits.1, fits.2.1, fun item member list => (fits.2.2 item member list).of_strip⟩

theorem FitsDeclaration.of_strip {tree : Tree ι} (fits : FitsDeclaration tree.strip) :
    FitsDeclaration tree := by
  simp only [FitsDeclaration, third_strip, isA_strip, name?_strip, last_strip, present_strip,
    List.forall_mem_map] at fits
  unfold FitsDeclaration
  split
  · next defines =>
    rw [if_pos defines] at fits
    exact ⟨fits.1, fits.2.1, fits.2.2.of_strip⟩
  · next lists =>
    rw [if_neg lists] at fits
    exact fun item member declares => (fits item member declares).of_strip

theorem Fits.of_strip {tree : Tree ι} (fits : Fits tree.strip) : Fits tree := by
  unfold Fits at fits ⊢
  rw [construct?_strip] at fits
  cases spells : tree.construct? with
  | none => trivial
  | some construct =>
    rw [spells] at fits
    cases construct with
    | enumSpec => exact FitsEnum.of_strip fits
    | declaration => exact FitsDeclaration.of_strip fits
    | namespaceSpec | classSpec | templateDecl | forStatement | usingDirective
      | usingDeclaration => simpa [FitsAs] using fits
    | _ => exact fun hides => Unscoped.of_strip (fits hides)

theorem Throughout.fits_of_strip {tree : Tree ι} (fits : Throughout Fits tree.strip) :
    Throughout Fits tree := by
  induction tree with
  | nil => trivial
  | leaf label token => trivial
  | cell label construct name type head tail ihHead ihTail =>
    exact ⟨Fits.of_strip fits.1, ihHead fits.2.1, ihTail fits.2.2⟩

/-- Numbering changes nothing but labels. -/
theorem strip_numberFrom (tree : Plain) :
    (∀ next, (numberFrom next tree).1.strip = tree) ∧
      ∀ list next, (numberTail list next tree).1.strip = tree := by
  induction tree with
  | nil => exact ⟨fun next => rfl, fun list next => rfl⟩
  | leaf label token => exact ⟨fun next => rfl, fun list next => rfl⟩
  | cell label construct name type head tail ihHead ihTail =>
    constructor
    · intro next
      simp only [numberFrom, strip, ihHead.1, ihTail.2]
    · intro list next
      simp only [numberTail, strip, ihHead.1, ihTail.2]

theorem strip_numbered (tree : Plain) : tree.numbered.strip = tree :=
  (strip_numberFrom tree).1 0

theorem tokens_numbered (tree : Plain) : tree.numbered.tokens = tree.tokens := by
  rw [← tokens_strip, strip_numbered]

/-! ## Built trees -/

theorem chain_seq (elements : List Plain) : (seq elements).chain = elements := by
  induction elements with
  | nil => rfl
  | cons first rest ih => exact congrArg (first :: ·) ih

@[simp] theorem elements_seq (elements : List Plain) : (seq elements).elements = elements := by
  cases elements with
  | nil => rfl
  | cons first rest => exact congrArg (first :: ·) (chain_seq rest)

theorem elements_encodedList (construct : Construct) (name type : Option Encoding)
    (elements : List Plain) :
    (encodedList construct name type elements).elements = elements.headD nil :: elements.tail :=
  congrArg (elements.headD nil :: ·) (chain_seq elements.tail)

/-- What holds of plain cells and throughout some elements holds throughout their plain list. -/
theorem throughout_seq_of {property : Plain → Prop} {elements : List Plain}
    (plain : ∀ head tail, property (cons .cons head tail))
    (parts : ∀ element ∈ elements, Throughout property element) :
    Throughout property (seq elements) := by
  induction elements with
  | nil => trivial
  | cons first rest ih =>
    refine ⟨plain _ _, parts first (List.mem_cons_self ..), ih fun element member =>
      parts element (List.mem_cons_of_mem _ member)⟩

theorem throughout_encodedList_of {property : Plain → Prop} {construct : Construct}
    {name type : Option Encoding} {elements : List Plain}
    (plain : ∀ head tail, property (cons .cons head tail))
    (parts : ∀ element ∈ elements, Throughout property element)
    (own : property (encodedList construct name type elements)) :
    Throughout property (encodedList construct name type elements) := by
  cases elements with
  | nil => exact ⟨own, trivial, trivial⟩
  | cons first rest =>
    exact ⟨own, parts first (List.mem_cons_self ..), throughout_seq_of plain fun element member =>
      parts element (List.mem_cons_of_mem _ member)⟩

theorem fits_cons (head tail : Plain) : Fits (cons .cons head tail) :=
  fun hides => absurd hides (by decide)

theorem throughout_seq {elements : List Plain}
    (parts : ∀ element ∈ elements, Throughout Fits element) : Throughout Fits (seq elements) :=
  throughout_seq_of fits_cons parts

theorem throughout_encodedList {construct : Construct} {name type : Option Encoding}
    {elements : List Plain} (parts : ∀ element ∈ elements, Throughout Fits element)
    (fits : Fits (encodedList construct name type elements)) :
    Throughout Fits (encodedList construct name type elements) :=
  throughout_encodedList_of fits_cons parts fits

theorem unscoped_encodedList {construct : Construct} {name type : Option Encoding}
    {elements : List Plain} (transparent : construct.isTransparent = true)
    (callee : construct = .funcallExpr → (elements.headD nil).isNil = false)
    (parts : ∀ element ∈ elements, Unscoped element) :
    Unscoped (encodedList construct name type elements) := by
  refine .parts transparent callee ?_
  intro element member
  rw [chain_seq] at member
  cases elements with
  | nil =>
    rw [List.mem_singleton.mp member]
    exact .nil
  | cons first rest => exact parts element member

theorem unscoped_seq {elements : List Plain} (parts : ∀ element ∈ elements, Unscoped element) :
    Unscoped (seq elements) := by
  cases elements with
  | nil => exact .nil
  | cons first rest =>
    refine .parts rfl (by simp) ?_
    change ∀ element ∈ first :: (seq rest).chain, Unscoped element
    rw [chain_seq]
    exact parts

end Tree
end CppNames
