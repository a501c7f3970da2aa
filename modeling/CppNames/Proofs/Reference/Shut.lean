import CppNames.Proofs.Reference.Operand

namespace CppNames

/-!
# What the pass over uses leaves out

`opened` lists the parts of a node that the pass over uses looks into.  `shut` lists all the
others: keywords and brackets, the names that are declared, members behind `.` and `->`, the words
of types, type-ids and template arguments, type definitions, the types of parameters and the
parameters of templates.  The two lists share out a node between them, whatever its elements are.
So going down from part to part one comes from a tree to each of its identifiers, or to a node of
which a shut part holds the identifier.
-/

namespace Tree

variable {ι : Type}

/-- The elements of a list besides the parts at some positions and the lists at some others. -/
def besides (node : Tree ι) (parts lists : List Nat) : List (Tree ι) :=
  (node.elements.zipIdx.filter fun element =>
    !(parts.contains element.2 || (lists.contains element.2 && element.1.isCell))).map (·.1)

variable {node atom : Tree ι}

theorem isLeaf_of_token? {token : Token} (shows : atom.token? = some token) :
    atom.isLeaf = true := by
  cases atom with
  | nil | cell label construct name type head tail => cases shows
  | leaf label own => rfl

/-- A token inside a list is inside one of its elements. -/
theorem exists_present_of_leaf (list : node.isCell = true) (leaf : atom.isLeaf = true)
    (inside : atom ∈ node.preorder) : ∃ element ∈ node.present, atom ∈ element.preorder := by
  rw [preorder_eq list] at inside
  rcases List.mem_cons.mp inside with rfl | behind
  · cases atom with
    | nil | leaf label token => cases list
    | cell label construct name type head tail => cases leaf
  · unfold parts at behind
    rw [present]
    rcases List.mem_flatMap.mp behind with ⟨element, member, within⟩
    refine ⟨element, List.mem_filter.mpr ⟨member, ?_⟩, within⟩
    cases element with
    | nil => exact absurd within List.not_mem_nil
    | leaf label token | cell label construct name type head tail => rfl

/-- A token inside a list is inside one of the parts at some positions, or one of the lists at
some others, or something besides them. -/
theorem exists_of_besides (parts lists : List Nat) (list : node.isCell = true)
    (leaf : atom.isLeaf = true) (inside : atom ∈ node.preorder) :
    (∃ part ∈ node.besides parts lists, atom ∈ part.preorder) ∨
      (∃ position ∈ parts, atom ∈ (node.nth position).preorder) ∨
      ∃ position ∈ lists, (node.nth position).isCell = true ∧
        atom ∈ (node.nth position).preorder := by
  rcases exists_present_of_leaf list leaf inside with ⟨element, there, within⟩
  rcases List.getElem_of_mem (mem_present there).1 with ⟨position, bound, rfl⟩
  have same : node.nth position = node.elements[position] := by
    rw [nth_eq_getD, List.getD_eq_getElem _ _ bound]
  by_cases isPart : position ∈ parts
  · exact .inr (.inl ⟨position, isPart, same ▸ within⟩)
  by_cases isList : position ∈ lists ∧ node.elements[position].isCell = true
  · exact .inr (.inr ⟨position, isList.1, same ▸ isList.2, same ▸ within⟩)
  · refine .inl ⟨node.elements[position], ?_, within⟩
    refine List.mem_map.mpr ⟨(node.elements[position], position), List.mem_filter.mpr ⟨?_, ?_⟩, rfl⟩
    · rw [List.mem_zipIdx_iff_getElem?]
      exact List.getElem?_eq_getElem bound
    · simpa [isPart, imp_iff_not_or] using isList

/-- A token inside the words of a type is inside one of the words. -/
theorem exists_word_of_leaf (leaf : atom.isLeaf = true) (words : Tree ι) :
    (atom ∈ words.preorder → ∃ word ∈ words.typeWords, atom ∈ word.preorder) ∧
      (atom ∈ words.preorderTail → ∃ word ∈ words.typeWordsBehind, atom ∈ word.preorder) := by
  induction words with
  | nil => exact ⟨fun inside => absurd inside List.not_mem_nil,
      fun inside => absurd inside List.not_mem_nil⟩
  | leaf label token => exact ⟨fun inside => ⟨_, List.mem_singleton_self _, inside⟩,
      fun inside => absurd inside List.not_mem_nil⟩
  | cell label construct name type head tail ihHead ihTail =>
    have both : atom ∈ head.preorder ++ tail.preorderTail →
        ∃ word ∈ head.typeWords ++ tail.typeWordsBehind, atom ∈ word.preorder := by
      intro inside
      rcases List.mem_append.mp inside with early | late
      · rcases ihHead.1 early with ⟨word, member, within⟩
        exact ⟨word, List.mem_append_left _ member, within⟩
      · rcases ihTail.2 late with ⟨word, member, within⟩
        exact ⟨word, List.mem_append_right _ member, within⟩
    refine ⟨fun inside => ?_, both⟩
    unfold typeWords
    split
    · rcases List.mem_cons.mp inside with rfl | behind
      · cases leaf
      · exact both behind
    · exact ⟨_, List.mem_singleton_self _, inside⟩

/-- The words of a type are no larger than the list of the words. -/
theorem size_typeWords_le (words : Tree ι) : (∀ word ∈ words.typeWords, word.size ≤ words.size) ∧
    ∀ word ∈ words.typeWordsBehind, word.size ≤ words.size := by
  induction words with
  | nil => exact ⟨fun _ member => absurd member List.not_mem_nil,
      fun _ member => absurd member List.not_mem_nil⟩
  | leaf label token => exact ⟨List.forall_mem_singleton.mpr (Nat.le_refl _),
      fun _ member => absurd member List.not_mem_nil⟩
  | cell label construct name type head tail ihHead ihTail =>
    have both : ∀ word ∈ head.typeWords ++ tail.typeWordsBehind, word.size ≤
        (cell label construct name type head tail).size := by
      intro word member
      rw [size]
      rcases List.mem_append.mp member with early | late
      · have small := ihHead.1 word early
        omega
      · have small := ihTail.2 word late
        omega
    refine ⟨?_, both⟩
    unfold typeWords
    split
    · exact both
    · exact List.forall_mem_singleton.mpr (Nat.le_refl _)

theorem size_nth_le (node : Tree ι) (position : Nat) : (node.nth position).size ≤ node.size := by
  rcases nth_mem_elements node position with absent | member
  · rw [absent]
    exact Nat.zero_le _
  · exact Nat.le_of_lt (size_lt_of_mem_elements member)

end Tree

namespace Reference

/-! ## Parts that are shut -/

/-- The shut parts of an enumerator: all but its value. -/
def shutEnumerator (item : Node) : List Node :=
  if item.isA .cons then item.besides [2] [] else [item]

/-- The shut parts of an enumeration: all but the values of its enumerators. -/
def shutEnum (node : Node) : List Node :=
  node.besides [] [2] ++ node.third.besides [] [1] ++
    node.third.second.present.flatMap shutEnumerator

/-- The shut parts of a declaration: the words of its type, apart from classes and enumerations,
and what is no declarator, no initializer of a constructor and no body. -/
def shutDeclaration (node : Node) : List Node :=
  node.second.typeWords.filter (!specifies ·) ++
    if node.third.isA .declarator then
      node.besides (if (node.nth 3).isA .block then [1, 2] else [1, 2, 3]) [node.length - 1]
    else node.besides [1] [2] ++ node.third.present.filter (!·.isA .declarator)

/-- The parts of a node that the pass over uses does not look into. -/
def shut (node : Node) : List Node :=
  match node.construct? with
  | none => []
  | some construct =>
    match construct with
    | .namespaceSpec => node.besides [] [2]
    | .classSpec => node.besides [] [3]
    | .enumSpec => shutEnum node
    | .declaration => shutDeclaration node
    | .declarator => (node.present.find? (·.isDeclaredName)).toList
    | .parameterDeclaration | .fstyleCastExpr | .typeidExpr => node.besides [2] []
    | .templateDecl => node.besides [4] []
    | .typedefDecl | .usingDirective | .usingDeclaration | .accessSpec | .typeId => node.elements
    | .name => node.elements.filter (·.isCell)
    | .funcallExpr => node.besides [0, 2] []
    | .dotMemberExpr | .arrowMemberExpr => node.besides [0] []
    | .castExpr | .newExpr => node.besides [3] []
    | .sizeofExpr => if node.length = 2 then node.besides [1] [] else node.elements
    | _ => []

/-! ## Every token is inside an opened part or a shut one -/

/-- A token is inside a part of a node, be it opened or shut. -/
def Shares (node atom : Node) : Prop :=
  ∃ part, (part ∈ opened node ∨ part ∈ shut node) ∧ atom ∈ part.preorder

section Sharing

variable {node atom : Node}

theorem Shares.opens {part : Node} (opens : part ∈ opened node) (within : atom ∈ part.preorder) :
    Shares node atom := ⟨part, .inl opens, within⟩

theorem Shares.shuts {part : Node} (shuts : part ∈ shut node) (within : atom ∈ part.preorder) :
    Shares node atom := ⟨part, .inr shuts, within⟩

/-- A token in a list of which all elements are opened. -/
theorem Shares.ofList {part : Node} (list : part.isCell = true) (leaf : atom.isLeaf = true)
    (opens : part.present ⊆ opened node) (within : atom ∈ part.preorder) : Shares node atom := by
  rcases Tree.exists_present_of_leaf list leaf within with ⟨element, there, deeper⟩
  exact .opens (opens there) deeper

/-- A token in a list of which all elements are shut. -/
theorem Shares.ofClosed {part : Node} (list : part.isCell = true) (leaf : atom.isLeaf = true)
    (shuts : part.elements ⊆ shut node) (within : atom ∈ part.preorder) : Shares node atom := by
  rcases Tree.exists_present_of_leaf list leaf within with ⟨element, there, deeper⟩
  exact .shuts (shuts (Tree.mem_present there).1) deeper

/-- Where what stands besides some parts and lists is shut, it is enough to look into these. -/
theorem shares_of_besides (parts lists : List Nat) (list : node.isCell = true)
    (leaf : atom.isLeaf = true) (inside : atom ∈ node.preorder)
    (shuts : node.besides parts lists ⊆ shut node)
    (part : ∀ position ∈ parts, atom ∈ (node.nth position).preorder → Shares node atom)
    (ofList : ∀ position ∈ lists, (node.nth position).isCell = true →
      atom ∈ (node.nth position).preorder → Shares node atom) : Shares node atom := by
  rcases Tree.exists_of_besides parts lists list leaf inside with
    ⟨other, besides, within⟩ | ⟨position, among, within⟩ | ⟨position, among, cells, within⟩
  · exact .shuts (shuts besides) within
  · exact part position among within
  · exact ofList position among cells within

/-- Where one part is opened and what stands besides it is shut. -/
theorem shares_of_nth (position : Nat) (list : node.isCell = true) (leaf : atom.isLeaf = true)
    (inside : atom ∈ node.preorder) (opens : node.nth position ∈ opened node)
    (shuts : node.besides [position] [] ⊆ shut node) : Shares node atom := by
  refine shares_of_besides _ _ list leaf inside shuts ?_ fun _ none => absurd none List.not_mem_nil
  exact List.forall_mem_singleton.mpr (.opens opens)

/-- Where the elements of one list are opened and what stands besides the list is shut. -/
theorem shares_of_list (position : Nat) (list : node.isCell = true) (leaf : atom.isLeaf = true)
    (inside : atom ∈ node.preorder) (opens : (node.nth position).present ⊆ opened node)
    (shuts : node.besides [] [position] ⊆ shut node) : Shares node atom := by
  refine shares_of_besides _ _ list leaf inside shuts (fun _ none => absurd none List.not_mem_nil) ?_
  exact List.forall_mem_singleton.mpr fun cells => .ofList cells leaf opens

section Declaration

variable (declares : node.construct? = some .declaration)

include declares

theorem opened_declaration : opened node = declarationParts node := by
  unfold opened
  rw [declares]

theorem shut_declaration : shut node = shutDeclaration node := by
  unfold shut
  rw [declares]

/-- A token in the words of the type of a declaration. -/
theorem shares_words (leaf : atom.isLeaf = true) (within : atom ∈ node.second.preorder) :
    Shares node atom := by
  rcases (Tree.exists_word_of_leaf leaf node.second).1 within with ⟨word, member, deeper⟩
  cases special : specifies word with
  | true =>
    refine .opens ?_ deeper
    rw [opened_declaration declares]
    exact List.mem_append_left _ (List.mem_filter.mpr ⟨member, special⟩)
  | false =>
    refine .shuts ?_ deeper
    rw [shut_declaration declares]
    exact List.mem_append_left _ (List.mem_filter.mpr ⟨member, by rw [special]; rfl⟩)

theorem shares_definition (defines : node.third.isA .declarator = true)
    (list : node.isCell = true) (leaf : atom.isLeaf = true) (inside : atom ∈ node.preorder) :
    Shares node atom := by
  have opens : definitionParts node ⊆ opened node := by
    rw [opened_declaration declares]
    unfold declarationParts
    rw [if_pos defines]
    exact List.subset_append_right ..
  have shuts : node.besides (if (node.nth 3).isA .block then [1, 2] else [1, 2, 3])
      [node.length - 1] ⊆ shut node := by
    rw [shut_declaration declares]
    unfold shutDeclaration
    rw [if_pos defines]
    exact List.subset_append_right ..
  have words : atom ∈ (node.nth 1).preorder → Shares node atom := shares_words declares leaf
  have declarator : atom ∈ (node.nth 2).preorder → Shares node atom :=
    .opens (opens (List.mem_cons_self ..))
  refine shares_of_besides _ _ list leaf inside shuts ?_ ?_
  · by_cases braced : (node.nth 3).isA .block = true
    · rw [if_pos braced]
      exact List.forall_mem_cons.mpr ⟨words, List.forall_mem_singleton.mpr declarator⟩
    · rw [if_neg braced]
      refine List.forall_mem_cons.mpr ⟨words, List.forall_mem_cons.mpr ⟨declarator, ?_⟩⟩
      refine List.forall_mem_singleton.mpr (.opens (opens (List.mem_cons_of_mem _ ?_)))
      unfold initializers
      rw [if_neg braced]
      exact List.mem_cons_self ..
  · refine List.forall_mem_singleton.mpr fun cells => .ofList cells leaf ?_
    rw [Tree.nth_length_sub_one]
    exact fun statement member => opens (List.mem_cons_of_mem _ (List.mem_cons_of_mem _ member))

theorem shares_variables (single : ¬ node.third.isA .declarator = true)
    (list : node.isCell = true) (leaf : atom.isLeaf = true) (inside : atom ∈ node.preorder) :
    Shares node atom := by
  have opens : node.third.present.filter (·.isA .declarator) ⊆ opened node := by
    rw [opened_declaration declares]
    unfold declarationParts
    rw [if_neg single]
    exact List.subset_append_right ..
  have shuts : node.besides [1] [2] ++ node.third.present.filter (!·.isA .declarator) ⊆
      shut node := by
    rw [shut_declaration declares]
    unfold shutDeclaration
    rw [if_neg single]
    exact List.subset_append_right ..
  refine shares_of_besides [1] [2] list leaf inside ?_ ?_ ?_
  · exact fun part member => shuts (List.mem_append_left _ member)
  · exact List.forall_mem_singleton.mpr (shares_words declares leaf)
  · refine List.forall_mem_singleton.mpr fun cells within => ?_
    rcases Tree.exists_present_of_leaf cells leaf within with ⟨element, there, deeper⟩
    cases isDeclarator : element.isA .declarator with
    | true => exact .opens (opens (List.mem_filter.mpr ⟨there, isDeclarator⟩)) deeper
    | false =>
      refine .shuts (shuts (List.mem_append_right _ ?_)) deeper
      exact List.mem_filter.mpr ⟨there, by rw [isDeclarator]; rfl⟩

end Declaration

theorem shares_enum (isEnum : node.construct? = some .enumSpec) (list : node.isCell = true)
    (leaf : atom.isLeaf = true) (inside : atom ∈ node.preorder) : Shares node atom := by
  have opens : opened node =
      (node.third.second.present.filter (·.isA .cons)).map (·.third) := by
    unfold opened
    rw [isEnum]
  have shuts : shut node = shutEnum node := by
    unfold shut
    rw [isEnum]
  have enumerators : shutEnum node ⊆ shut node := fun part member => shuts ▸ member
  unfold shutEnum at enumerators
  refine shares_of_besides [] [2] list leaf inside ?_ (fun _ none => absurd none List.not_mem_nil) ?_
  · exact fun part member => enumerators (List.mem_append_left _ (List.mem_append_left _ member))
  refine List.forall_mem_singleton.mpr fun braces within => ?_
  rcases Tree.exists_of_besides [] [1] braces leaf within with
    ⟨part, besides, within⟩ | ⟨_, none, _⟩ | ⟨position, among, cells, within⟩
  · exact .shuts (enumerators (List.mem_append_left _ (List.mem_append_right _ besides))) within
  · exact absurd none List.not_mem_nil
  · rw [List.mem_singleton.mp among] at cells within
    rcases Tree.exists_present_of_leaf cells leaf within with ⟨item, there, deeper⟩
    have closed : ∀ part ∈ shutEnumerator item, part ∈ shut node := fun part member =>
      enumerators (List.mem_append_right _ (List.mem_flatMap.mpr ⟨item, there, member⟩))
    unfold shutEnumerator at closed
    by_cases valued : item.isA .cons = true
    · rw [if_pos valued] at closed
      rcases Tree.exists_of_besides [2] [] (Tree.isCell_of_construct? (eq_of_beq valued)) leaf deeper with
        ⟨part, besides, within⟩ | ⟨position, among, within⟩ | ⟨_, none, _⟩
      · exact .shuts (closed part besides) within
      · rw [List.mem_singleton.mp among] at within
        refine .opens ?_ within
        rw [opens]
        exact List.mem_map.mpr ⟨item, List.mem_filter.mpr ⟨there, valued⟩, rfl⟩
      · exact absurd none List.not_mem_nil
    · rw [if_neg valued] at closed
      exact .shuts (closed item (List.mem_singleton_self _)) deeper

/-- Taking the first declared name out of some elements loses only that one. -/
theorem mem_eraseP_or_find? {element : Node} {elements : List Node} (member : element ∈ elements) :
    element ∈ elements.eraseP (·.isDeclaredName) ∨
      elements.find? (·.isDeclaredName) = some element := by
  induction elements with
  | nil => exact absurd member List.not_mem_nil
  | cons first rest ih =>
    rw [List.eraseP_cons, List.find?_cons]
    cases first.isDeclaredName with
    | true => exact (List.mem_cons.mp member).symm.imp_right fun same => congrArg some same.symm
    | false =>
      rcases List.mem_cons.mp member with rfl | behind
      · exact .inl (List.mem_cons_self ..)
      · exact (ih behind).imp_left (List.mem_cons_of_mem _)

/-- The elements of a declarator are opened, apart from the name that it declares. -/
theorem shares_declarator (declares : node.construct? = some .declarator)
    (list : node.isCell = true) (leaf : atom.isLeaf = true) (inside : atom ∈ node.preorder) :
    Shares node atom := by
  rcases Tree.exists_present_of_leaf list leaf inside with ⟨element, there, within⟩
  rcases mem_eraseP_or_find? there with opens | name
  · refine .opens ?_ within
    unfold opened
    rw [declares]
    exact opens
  · refine .shuts ?_ within
    unfold shut
    rw [declares]
    exact Option.mem_toList.mpr name

/-- A token inside a list that is no name is inside an opened part or a shut one. -/
theorem shares_of_leaf (list : node.isCell = true) (notName : node.isA .name = false)
    (leaf : atom.isLeaf = true) (inside : atom ∈ node.preorder) : Shares node atom := by
  have all : node.present ⊆ opened node → Shares node atom := fun opens =>
    .ofList list leaf opens inside
  have closed : node.elements ⊆ shut node → Shares node atom := fun shuts =>
    .ofClosed list leaf shuts inside
  have nth := fun position => shares_of_nth position list leaf inside
  cases node with
  | nil | leaf label token => cases list
  | cell label construct name type head tail =>
    cases construct with
    | name => cases notName
    | namespaceSpec => exact shares_of_list 2 list leaf inside (.refl _) (.refl _)
    | classSpec => exact shares_of_list 3 list leaf inside (.refl _) (.refl _)
    | enumSpec => exact shares_enum rfl list leaf inside
    | declaration =>
      by_cases defines : (Tree.cell label .declaration name type head tail).third.isA .declarator
      · exact shares_definition rfl defines list leaf inside
      · exact shares_variables rfl defines list leaf inside
    | declarator => exact shares_declarator rfl list leaf inside
    | parameterDeclaration | fstyleCastExpr | typeidExpr =>
      exact nth 2 (List.mem_singleton_self _) (.refl _)
    | templateDecl => exact nth 4 (List.mem_singleton_self _) (.refl _)
    | typedefDecl | usingDirective | usingDeclaration | accessSpec | typeId =>
      exact closed (.refl _)
    | dotMemberExpr | arrowMemberExpr => exact nth 0 (List.mem_singleton_self _) (.refl _)
    | castExpr | newExpr => exact nth 3 (List.mem_singleton_self _) (.refl _)
    | funcallExpr =>
      refine shares_of_besides [0, 2] [] list leaf inside (.refl _) (fun position among => ?_)
        fun _ none => absurd none List.not_mem_nil
      rcases List.mem_cons.mp among with rfl | among
      · exact .opens (List.mem_cons_self ..)
      · rw [List.mem_singleton.mp among]
        exact .opens (List.mem_cons_of_mem _ (List.mem_singleton_self _))
    | sizeofExpr =>
      by_cases operand : (Tree.cell label .sizeofExpr name type head tail).length = 2
      · have opens : opened (.cell label .sizeofExpr name type head tail) =
            [(Tree.cell label .sizeofExpr name type head tail).second] := if_pos operand
        have shuts : shut (.cell label .sizeofExpr name type head tail) =
            (Tree.cell label .sizeofExpr name type head tail).besides [1] [] := if_pos operand
        refine nth 1 ?_ fun part member => shuts ▸ member
        rw [opens]
        exact List.mem_singleton_self _
      · have shuts : shut (.cell label .sizeofExpr name type head tail) = head :: tail.chain :=
          if_neg operand
        exact closed fun part member => shuts ▸ member
    | _ => exact all (.refl _)

end Sharing

/-! ## Every identifier is part of an operand or shut -/

/-- What is opened in a node is smaller than the node. -/
theorem size_lt_of_mem_opened {node part : Node} (list : node.isCell = true)
    (opens : part ∈ opened node) : part.size < node.size := by
  have nth := fun position => Tree.size_nth_lt node position list
  have inNth : ∀ position, part ∈ (node.nth position).present → part.size < node.size :=
    fun position there =>
      (Tree.size_lt_of_mem_elements (Tree.mem_present there).1).trans (nth position)
  have own : part ∈ node.present → part.size < node.size := fun there =>
    Tree.size_lt_of_mem_elements (Tree.mem_present there).1
  have only : ∀ position, part ∈ [node.nth position] → part.size < node.size :=
    fun position same => List.mem_singleton.mp same ▸ nth position
  cases node with
  | nil | leaf label token => cases list
  | cell label construct name type head tail =>
    cases construct with
    | namespaceSpec => exact inNth 2 opens
    | classSpec => exact inNth 3 opens
    | enumSpec =>
      rcases List.mem_map.mp opens with ⟨item, among, rfl⟩
      have there := (Tree.mem_present (List.mem_filter.mp among).1).1
      have value := item.size_nth_le 2
      have inside := Tree.size_lt_of_mem_elements there
      have items := Tree.size_nth_le (Tree.cell label .enumSpec name type head tail).third 1
      exact Nat.lt_of_le_of_lt value (inside.trans (Nat.lt_of_le_of_lt items (nth 2)))
    | declaration =>
      rcases List.mem_append.mp opens with word | rest
      · have small := (Tree.size_typeWords_le _).1 part (List.mem_filter.mp word).1
        exact Nat.lt_of_le_of_lt small (nth 1)
      · split at rest
        · rcases List.mem_cons.mp rest with rfl | rest
          · exact nth 2
          rcases List.mem_cons.mp rest with rfl | statement
          · unfold initializers
            split
            · exact Nat.lt_of_le_of_lt (Nat.zero_le _) (nth 3)
            · exact nth 3
          · rw [← Tree.nth_length_sub_one] at statement
            exact inNth _ statement
        · exact inNth 2 (List.mem_filter.mp rest).1
    | declarator => exact own (List.mem_of_mem_eraseP opens)
    | parameterDeclaration | fstyleCastExpr | typeidExpr => exact only 2 opens
    | templateDecl => exact only 4 opens
    | typedefDecl | usingDirective | usingDeclaration | accessSpec | typeId | name =>
      exact absurd opens List.not_mem_nil
    | dotMemberExpr | arrowMemberExpr => exact only 0 opens
    | castExpr | newExpr => exact only 3 opens
    | funcallExpr =>
      rcases List.mem_cons.mp opens with rfl | opens
      · exact nth 0
      · exact only 2 opens
    | sizeofExpr =>
      change part ∈ if _ then _ else _ at opens
      split at opens
      · exact only 1 opens
      · exact absurd opens List.not_mem_nil
    | _ => exact own opens

/-- A token is an identifier of an operand that is reached from one of some nodes. -/
def HasOperand (nodes : List Node) (token : Token) : Prop :=
  ∃ node ∈ nodes, ∃ operand, Reaches node operand ∧ operand.isDeclaredName = true ∧
    token ∈ operand.identifiers

/-- A token stands in a shut part of a node that is reached from one of some nodes. -/
def Shuts (nodes : List Node) (atom : Node) : Prop :=
  ∃ node ∈ nodes, ∃ place, Reaches node place ∧ ∃ part ∈ shut place, atom ∈ part.preorder

/-- Every identifier in a node belongs to an operand or stands in a shut part. -/
theorem hasOperand_or_shuts {atom : Node} {token : Token} (shows : atom.token? = some token)
    (identifier : token.kind = .identifier) (node : Node) (inside : atom ∈ node.preorder) :
    HasOperand [node] token ∨ Shuts [node] atom := by
  unfold HasOperand Shuts
  simp only [List.mem_singleton, exists_eq_left]
  have leaf := Tree.isLeaf_of_token? shows
  induction within : node.size using Nat.strong_induction_on generalizing node with
  | _ count ih =>
    cases node with
    | nil => exact absurd inside List.not_mem_nil
    | leaf label own =>
      rw [List.mem_singleton.mp inside] at shows
      cases shows
      refine .inl ⟨_, .refl, ?_, ?_⟩
      · simp [Tree.isDeclaredName, Tree.isToken, Tree.kind?, Tree.token?, identifier]
      · simp [Tree.identifiers, identifier]
    | cell label construct name type head tail =>
      cases isName : (Tree.cell label construct name type head tail).isA .name with
      | true =>
        -- the identifiers among the elements of a name are its own
        rcases Tree.exists_present_of_leaf rfl leaf inside with ⟨element, there, deeper⟩
        have member := (Tree.mem_present there).1
        cases element with
        | nil => exact absurd deeper List.not_mem_nil
        | leaf own token =>
          rw [List.mem_singleton.mp deeper] at shows
          cases shows
          refine .inl ⟨_, .refl, Bool.or_eq_true_iff.mpr (.inr isName), ?_⟩
          refine List.mem_filter.mpr ⟨List.mem_filterMap.mpr ⟨_, member, rfl⟩, ?_⟩
          exact decide_eq_true identifier
        | cell other inner name' type' first rest =>
          refine .inr ⟨_, .refl, _, ?_, deeper⟩
          have same : construct = .name := Option.some.inj (eq_of_beq isName)
          subst same
          exact List.mem_filter.mpr ⟨member, rfl⟩
      | false =>
        rcases shares_of_leaf rfl isName leaf inside with ⟨part, opens | shuts, deeper⟩
        · have smaller : part.size < count := within ▸ size_lt_of_mem_opened rfl opens
          rcases ih part.size smaller part deeper rfl with
            ⟨operand, reaches, own⟩ | ⟨place, reaches, own⟩
          · exact .inl ⟨operand, .head opens reaches, own⟩
          · exact .inr ⟨place, .head opens reaches, own⟩
        · exact .inr ⟨_, .refl, part, shuts, deeper⟩

/-- Every identifier in a list belongs to an operand or stands in a shut part of what is reached
from the elements of the list. -/
theorem hasOperand_or_shuts_present {tree atom : Node} {token : Token} (list : tree.isCell = true)
    (shows : atom.token? = some token) (identifier : token.kind = .identifier)
    (inside : atom ∈ tree.preorder) : HasOperand tree.present token ∨ Shuts tree.present atom := by
  rcases Tree.exists_present_of_leaf list (Tree.isLeaf_of_token? shows) inside with ⟨item, there, within⟩
  rcases hasOperand_or_shuts shows identifier item within with ⟨node, same, own⟩ | ⟨node, same, own⟩
  · rw [List.mem_singleton.mp same] at own
    exact .inl ⟨item, there, own⟩
  · rw [List.mem_singleton.mp same] at own
    exact .inr ⟨item, there, own⟩

end Reference
end CppNames
