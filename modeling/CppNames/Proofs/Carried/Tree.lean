import CppNames.Proofs.Encoding.Component
import CppNames.Proofs.Tree.Bound

namespace CppNames
namespace Tree

/-!
# What nodes carry

The parser notes on a node the encoding of the name or the type that the node spells.  A name
joins one component for each that is written, a type is composed around the names in it, a
function type lists the parameters of a declarator, and the type of a declarator has an array for
each size that is written in it.  `Tells` says this of one node.

Whether an encoding is complete depends on the names in it, and the name of a type may stand
outside the node that carries the type: a declarator is noted with a type that begins with the
specifiers in front of it.  So what counts as a `good` name is left open.  `Told` says of a tree
that its nodes are what they should be wherever all of its own names are good.  The names of the
whole tree can then be taken as the good ones.
-/

open Encoding (IsComponent ComposedOf)

variable {ι : Type} {good : Encoding → Prop}

/-! ## What is written -/

/-- Whether an element of a name stands for one of its components.  The name of a destructor is
counted at its identifier. -/
def countsComponent (element : Tree ι) : Bool :=
  element.isToken .identifier || element.isToken .kwOperator

/-- Whether a tree is a token that a name can begin with. -/
def leadsName (tree : Tree ι) : Bool :=
  [Token.Kind.identifier, .colonColon, .tilde, .kwOperator].any tree.isToken

/-- The number of components among the elements of a name.  A `::` in front stands for the
global scope, which is a component of its own. -/
def componentsIn (elements : List (Tree ι)) : Nat :=
  (if (elements.headD nil).isToken .colonColon then 1 else 0) + elements.countP countsComponent

/-- The number of components that are written in a name. -/
def componentCount (name : Tree ι) : Nat := componentsIn name.elements

/-- The types of the parameters among some elements. -/
def typesIn (elements : List (Tree ι)) : List Encoding :=
  (elements.filter (·.isA .parameterDeclaration)).map fun parameter => parameter.type?.getD .empty

theorem typesIn_append (front back : List (Tree ι)) :
    typesIn (front ++ back) = typesIn front ++ typesIn back := by
  unfold typesIn
  rw [List.filter_append, List.map_append]

/-- The types of the parameters in a list of parameters.  A single `void` is no parameter. -/
def listedTypes (parameters : Tree ι) : List Encoding :=
  if typesIn parameters.elements = [.builtin 'v'] then [] else typesIn parameters.elements

/-- Whether a list of parameters has an ellipsis. -/
def listsEllipsis (parameters : Tree ι) : Bool :=
  parameters.elements.any (·.isToken .ellipsis)

/-- The declarator that makes the type of a node: the node itself, or the part of a parameter or
a type. -/
def typeDeclarator (node : Tree ι) : Tree ι :=
  if node.isA .declarator then node else if node.isA .typeId then node.second else node.third

theorem typeDeclarator_of_isA {node : Tree ι} (declares : node.isA .declarator = true) :
    node.typeDeclarator = node := if_pos declares

/-- A node carries an encoding as its name or as its type. -/
def Carries (node : Tree ι) (encoding : Encoding) : Prop :=
  node.name? = some encoding ∨ node.type? = some encoding

section Strip

variable (tree : Tree ι)

@[simp] theorem carries_strip (encoding : Encoding) :
    tree.strip.Carries encoding ↔ tree.Carries encoding := by simp [Carries]

@[simp] theorem leadsName_strip : tree.strip.leadsName = tree.leadsName := by simp [leadsName]

@[simp] theorem head_strip : tree.strip.head = tree.head.strip := by cases tree <;> rfl

theorem componentsIn_map_strip (elements : List (Tree ι)) :
    componentsIn (elements.map strip) = componentsIn elements := by
  have counts : countsComponent ∘ strip = countsComponent (ι := ι) := by
    funext element
    simp [countsComponent]
  unfold componentsIn
  rw [List.countP_map, counts]
  cases elements with
  | nil => rfl
  | cons first rest => simp

@[simp] theorem componentCount_strip : tree.strip.componentCount = tree.componentCount := by
  unfold componentCount
  rw [elements_strip, componentsIn_map_strip]

theorem elementBehind_strip (kind : Token.Kind) :
    tree.strip.elementBehind kind = (tree.elementBehind kind).strip := by
  have asked : (fun element : Plain => !element.isToken kind) ∘ strip =
      fun element : Tree ι => !element.isToken kind := by
    funext element
    simp [isToken_strip]
  unfold elementBehind
  rw [elements_strip, List.dropWhile_map, asked, ← List.map_drop]
  cases (tree.elements.dropWhile fun element => !element.isToken kind).drop 1 <;> rfl

theorem parameterList_strip : tree.strip.parameterList = tree.parameterList.strip :=
  elementBehind_strip tree .openParen

@[simp] theorem listedTypes_strip : tree.strip.listedTypes = tree.listedTypes := by
  have types : typesIn tree.strip.elements = typesIn tree.elements := by
    unfold typesIn
    rw [elements_strip, List.filter_map, List.map_map]
    congr 1
    · funext element
      exact congrArg (·.getD .empty) (type?_strip element)
    · congr 1
      funext element
      exact isA_strip element .parameterDeclaration
  unfold listedTypes
  rw [types]

@[simp] theorem listsEllipsis_strip : tree.strip.listsEllipsis = tree.listsEllipsis := by
  unfold listsEllipsis
  rw [elements_strip, List.any_map]
  congr 1
  funext element
  exact isToken_strip element .ellipsis

@[simp] theorem typeDeclarator_strip : tree.strip.typeDeclarator = tree.typeDeclarator.strip := by
  unfold typeDeclarator
  rw [isA_strip, isA_strip, second_strip, third_strip]
  split
  · rfl
  · split
    · rfl
    · rfl

theorem preorder_strip : tree.strip.preorder = tree.preorder.map strip ∧
    tree.strip.preorderTail = tree.preorderTail.map strip := by
  induction tree with
  | nil => exact ⟨rfl, rfl⟩
  | leaf label token => exact ⟨rfl, rfl⟩
  | cell label construct name type head tail ihHead ihTail =>
    constructor
    · simp only [strip, preorder, ihHead.1, ihTail.2, List.map_cons, List.map_append]
    · simp only [strip, preorderTail, ihHead.1, ihTail.2, List.map_append]

end Strip

/-! ## Properties of all nodes -/

/-- A property of all nodes of a tree. -/
def Everywhere (property : Tree ι → Prop) (tree : Tree ι) : Prop :=
  ∀ node ∈ tree.preorder, property node

theorem Everywhere.element {property : Tree ι → Prop} {tree : Tree ι}
    (holds : tree.Everywhere property) : ∀ element ∈ tree.elements, element.Everywhere property :=
  fun _ member node inside => holds node
    ((parts_elements_sublist tree).subset ((preorder_sublist_of_mem member).subset inside))

theorem Everywhere.self {property : Tree ι → Prop} {tree : Tree ι}
    (holds : tree.Everywhere property) (list : tree.isCell = true) : property tree := by
  refine holds tree (mem_preorder_self ?_)
  cases tree with
  | nil => cases list
  | leaf label token | cell label construct name type head tail => rfl

/-- A list has a property everywhere if it has it itself and its elements have it. -/
theorem everywhere_of_elements {property : Tree ι → Prop} {tree : Tree ι}
    (list : tree.isCell = true) (own : property tree) (all : ∀ element ∈ tree.elements, element.Everywhere property) :
    tree.Everywhere property := by
  intro node member
  rw [preorder_eq list] at member
  rcases List.mem_cons.mp member with same | inside
  · rw [same]
    exact own
  · rcases List.mem_flatMap.mp inside with ⟨element, among, within⟩
    exact all element among node within

/-! ## What nodes tell -/

/-- A name is encoded by one component for each that is written. -/
def Written (name : Tree ι) : Prop :=
  ∃ parts, name.name? = some (.qualified parts) ∧ parts ≠ [] ∧
    (∀ part ∈ parts, IsComponent part) ∧ parts.length = name.componentCount

/-- A type is the function type of some parameters, which may be followed by an ellipsis. -/
def IsFunctionOf (good : Encoding → Prop) (parameters : List Encoding) (ellipsis : Bool)
    (type : Encoding) : Prop :=
  (∀ parameter ∈ parameters, ComposedOf good parameter) ∧ ∃ result, ComposedOf good result ∧
    (type = .function parameters ellipsis result ∨
      type = (Encoding.function parameters ellipsis result).constOf)

/-- A function type has the parameters that its declarator lists. -/
structure DeclaresFunction (good : Encoding → Prop) (declarator : Tree ι) (type : Encoding) :
    Prop where
  isA : declarator.isA .declarator = true
  typed : declarator.type? = some type
  parameters : IsFunctionOf good declarator.parameterList.listedTypes
    declarator.parameterList.listsEllipsis type

/-- What one node carries. -/
structure Tells (good : Encoding → Prop) (node : Tree ι) : Prop where
  composed : ∀ encoding, node.Carries encoding → ComposedOf good encoding
  written : node.isA .name = true → node.Written
  led : node.isA .name = true → node.head.leadsName = true
  declares : ∀ type, node.type? = some type → type.isFunction = true →
    DeclaresFunction good node.typeDeclarator type
  bounded : node.isA .declarator = true → node.Bounded

/-- The names written in a tree are good. -/
def NamedBy (good : Encoding → Prop) (tree : Tree ι) : Prop :=
  tree.Everywhere fun node => node.isA .name = true → ∀ name, node.name? = some name → good name

/-- Where the names written in a tree are good, its nodes tell what they spell. -/
def Told (good : Encoding → Prop) (tree : Tree ι) : Prop :=
  tree.NamedBy good → tree.Everywhere (Tells good)

/-- The names written in some trees are good. -/
def AllNamedBy (good : Encoding → Prop) (trees : List (Tree ι)) : Prop :=
  ∀ tree ∈ trees, tree.NamedBy good

/-- Where the names written in some trees are good, their nodes tell what they spell. -/
def AllTold (good : Encoding → Prop) (trees : List (Tree ι)) : Prop :=
  AllNamedBy good trees → ∀ tree ∈ trees, tree.Everywhere (Tells good)

variable {trees behind elements : List Plain} {tree : Plain} {construct : Construct}
  {name type : Option Encoding}

/-- A node that carries nothing tells nothing. -/
theorem tells_of_none {node : Plain} (noName : node.name? = none) (noType : node.type? = none)
    (other : node.isA .name = false) (noDeclarator : node.isA .declarator = false) :
    Tells good node where
  composed encoding carries := by
    rcases carries with same | same
    · rw [noName] at same
      cases same
    · rw [noType] at same
      cases same
  written is := by rw [other] at is; cases is
  led is := by rw [other] at is; cases is
  declares type same := by rw [noType] at same; cases same
  bounded is := by rw [noDeclarator] at is; cases is

theorem told_nil : Told good (nil : Plain) := fun _ _ member => absurd member List.not_mem_nil

theorem told_ofToken (token : Token) : Told good (ofToken token) := by
  intro _ node member
  rw [List.mem_singleton.mp member]
  exact tells_of_none rfl rfl rfl rfl

namespace AllTold

theorem nil : AllTold good ([] : List Plain) := fun _ _ member => absurd member List.not_mem_nil

/-- The trees behind one may be told on the condition that its names are good. -/
theorem given (first : Told good tree) (rest : tree.NamedBy good → AllTold good trees) :
    AllTold good (tree :: trees) := by
  intro named
  rcases List.forall_mem_cons.mp named with ⟨own, others⟩
  exact List.forall_mem_cons.mpr ⟨first own, rest own others⟩

theorem cons (first : Told good tree) (rest : AllTold good trees) : AllTold good (tree :: trees) :=
  given first fun _ => rest

theorem single (told : Told good tree) : AllTold good [tree] := cons told nil

theorem told_single (told : AllTold good [tree]) : Told good tree :=
  fun named => told (List.forall_mem_singleton.mpr named) tree (List.mem_singleton_self tree)

theorem append (front : AllTold good trees) (back : AllTold good behind) :
    AllTold good (trees ++ behind) := by
  intro named
  rcases List.forall_mem_append.mp named with ⟨early, late⟩
  exact List.forall_mem_append.mpr ⟨front early, back late⟩

end AllTold

/-! ## Built trees -/

theorem namedBy_seq (named : (seq trees).NamedBy good) : AllNamedBy good trees := by
  have inside : AllNamedBy good (seq trees).elements := Everywhere.element named
  rwa [elements_seq] at inside

theorem namedBy_encodedList (named : (encodedList construct name type trees).NamedBy good) :
    AllNamedBy good trees := by
  have inside : AllNamedBy good (encodedList construct name type trees).elements :=
    Everywhere.element named
  rw [elements_encodedList] at inside
  cases trees with
  | nil => exact fun tree member => absurd member List.not_mem_nil
  | cons first rest => exact inside

theorem AllTold.told_seq (told : AllTold good trees) : Told good (seq trees) := by
  intro named
  have all := told (namedBy_seq named)
  cases trees with
  | nil => exact fun node member => absurd member List.not_mem_nil
  | cons first rest =>
    refine everywhere_of_elements rfl (tells_of_none rfl rfl rfl rfl) ?_
    rw [elements_seq]
    exact all

/-- A list that carries an encoding, if it tells what it should. -/
theorem AllTold.told_encodedList (told : AllTold good trees)
    (own : (encodedList construct name type trees).NamedBy good →
      Tells good (encodedList construct name type trees)) :
    Told good (encodedList construct name type trees) := by
  intro named
  refine everywhere_of_elements rfl (own named) ?_
  rw [elements_encodedList]
  cases trees with
  | nil =>
    exact List.forall_mem_singleton.mpr fun node member => absurd member List.not_mem_nil
  | cons first rest => exact told (namedBy_encodedList named)

theorem AllTold.told_list (told : AllTold good trees)
    (other : construct ≠ .name ∧ construct ≠ .declarator) : Told good (list construct trees) := by
  refine told.told_encodedList fun _ => tells_of_none rfl rfl ?_ ?_
  · exact beq_eq_false_iff_ne.mpr fun same => other.1 (Option.some.inj same)
  · exact beq_eq_false_iff_ne.mpr fun same => other.2 (Option.some.inj same)

/-- A list other than a name, whose encodings are composed around the names in it. -/
theorem AllTold.told_carrying (told : AllTold good trees) (other : construct ≠ .name)
    (composed : AllNamedBy good trees →
      ∀ encoding, name = some encoding ∨ type = some encoding → ComposedOf good encoding)
    (declares : AllNamedBy good trees → ∀ made, type = some made → made.isFunction = true →
      DeclaresFunction good (encodedList construct name type trees).typeDeclarator made)
    (bounded : construct = .declarator → (encodedList construct name type trees).Bounded) :
    Told good (encodedList construct name type trees) :=
  told.told_encodedList fun named =>
    { composed := composed (namedBy_encodedList named)
      written := fun is => absurd (Option.some.inj (eq_of_beq is)) other
      led := fun is => absurd (Option.some.inj (eq_of_beq is)) other
      declares := declares (namedBy_encodedList named)
      bounded := fun is => bounded (Option.some.inj (eq_of_beq is)) }

/-- A list that carries a name which is no part of a larger one. -/
theorem AllTold.told_named {encoding : Encoding} (told : AllTold good trees)
    (other : construct ≠ .name ∧ construct ≠ .declarator)
    (composed : AllNamedBy good trees → ComposedOf good encoding) :
    Told good (encodedList construct (some encoding) none trees) := by
  refine told.told_carrying other.1 (fun named carried which => ?_)
    (fun _ made same => by cases same) fun same => absurd same other.2
  rcases which with same | same
  · rw [← Option.some.inj same]
    exact composed named
  · cases same

/-- A list that carries a type other than a function type. -/
theorem AllTold.told_typed {encoding : Encoding} (told : AllTold good trees)
    (other : construct ≠ .name ∧ construct ≠ .declarator)
    (composed : AllNamedBy good trees → ComposedOf good encoding)
    (plain : encoding.isFunction = false) :
    Told good (encodedList construct none (some encoding) trees) := by
  refine told.told_carrying other.1 (fun named carried which => ?_)
    (fun _ made same isFunction => ?_) fun same => absurd same other.2
  · rcases which with same | same
    · cases same
    · rw [← Option.some.inj same]
      exact composed named
  · rw [← Option.some.inj same, plain] at isFunction
    cases isFunction

/-- What a list tells itself. -/
theorem Told.self (told : Told good tree) (named : tree.NamedBy good) (list : tree.isCell = true) :
    Tells good tree :=
  (told named).self list

end Tree
end CppNames
