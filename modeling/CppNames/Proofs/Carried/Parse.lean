import CppNames.Proofs.Carried.Declaration

namespace CppNames

/-!
# Encodings on the nodes of a parsed text

A name is encoded with the number of its components in one byte, which tells at most 127.  Where
a name has more, its encoding still has all of its components, but reading it stops behind the
first 127.  Such an encoding is not complete, and neither is a type that is composed around it.

Nothing else in a text makes an encoding incomplete.  So all encodings on the nodes of a tree are
complete just where the components of all names in the tree can be counted, and a name with more
components than that loses those behind the first 127.  Where all names can be counted, a function
type is taken apart into the types of the parameters that are written, an ellipsis last.
-/

open Encoding (Spelled)

namespace Tree

variable {ι : Type}

/-- The encoding of a name that is written somewhere in a tree. -/
def WrittenIn (tree : Tree ι) (encoding : Encoding) : Prop :=
  ∃ name ∈ tree.preorder, name.isA .name = true ∧ name.name? = some encoding

/-- The components of all names that are written in a tree can be counted. -/
def Countable (tree : Tree ι) : Prop :=
  ∀ name ∈ tree.preorder, name.isA .name = true → name.componentCount ≤ Encoding.limit

theorem Tells.of_strip {good : Encoding → Prop} {node : Tree ι} (tells : Tells good node.strip) :
    Tells good node where
  composed encoding carries := tells.composed encoding ((carries_strip node encoding).mpr carries)
  written is := by
    have written := tells.written (by rwa [isA_strip])
    unfold Written at written
    rw [name?_strip, componentCount_strip] at written
    exact written
  led is := by
    have led := tells.led (by rwa [isA_strip])
    rwa [head_strip, leadsName_strip] at led
  declares type same isFunction := by
    have declares := tells.declares type (by rwa [type?_strip]) isFunction
    rw [typeDeclarator_strip] at declares
    refine ⟨?_, ?_, ?_⟩
    · rw [← isA_strip]
      exact declares.isA
    · rw [← type?_strip]
      exact declares.typed
    · have parameters := declares.parameters
      rw [parameterList_strip, listedTypes_strip, listsEllipsis_strip] at parameters
      exact parameters
  bounded is := by
    rcases tells.bounded (by rwa [isA_strip]) with ⟨suffixes, base, bounded⟩
    exact ⟨suffixes, base, bounded.of_strip⟩

theorem everywhere_tells_numbered {tree : Plain} (told : Told (WrittenIn tree.numbered) tree) :
    tree.numbered.Everywhere (Tells (WrittenIn tree.numbered)) := by
  have preorder : tree.preorder = tree.numbered.preorder.map strip := by
    rw [← (preorder_strip tree.numbered).1, strip_numbered]
  have named : tree.NamedBy (WrittenIn tree.numbered) := by
    intro node member is name same
    rw [preorder] at member
    rcases List.mem_map.mp member with ⟨numbered, inside, rfl⟩
    rw [isA_strip] at is
    rw [name?_strip] at same
    exact ⟨numbered, inside, is, same⟩
  intro node member
  refine Tells.of_strip (told named node.strip ?_)
  rw [preorder]
  exact List.mem_map_of_mem member

end Tree

/-- Every node of a parsed text tells what it spells, and the names in its encodings are written
in the tree. -/
theorem everywhere_tells_parse {file source : String} {options : ParseOptions} {parsed : Parsed}
    (parses : parse file source options = .ok parsed) :
    parsed.tree.Everywhere (Tree.Tells parsed.tree.WrittenIn) := by
  rcases of_parse parses with ⟨tree, state, runs, rfl⟩
  have reads : Grammar.Reads Grammar.anywhere Grammar.unit fun tree' _ =>
      tree'.Told (Tree.WrittenIn tree.numbered) := Grammar.unit_told
  have ends := reads (Grammar.State.ofTokens options.maxDepth
    (tokenize file options.cxx source).1) trivial
  rw [runs] at ends
  rcases ends with ⟨_, told, _⟩
  exact Tree.everywhere_tells_numbered told

variable {ι : Type} {tree : Node}

/-- A name that is written is spelled in full where its components can be counted. -/
theorem Tree.WrittenIn.spelled (tells : tree.Everywhere (Tree.Tells tree.WrittenIn))
    (countable : tree.Countable) {encoding : Encoding} (written : tree.WrittenIn encoding) :
    Spelled (fun _ => True) encoding.bytes := by
  rcases written with ⟨name, member, is, same⟩
  rcases (tells name member).written is with ⟨parts, joined, named, components, counted⟩
  rw [Option.some.inj (same.symm.trans joined)]
  exact Encoding.spelled_qualified named components (counted ▸ countable name member is)

theorem Tree.listedTypes_ne_void (parameters : Tree ι) :
    parameters.listedTypes ≠ [.builtin 'v'] := by
  unfold listedTypes
  split
  · exact (List.cons_ne_nil _ _).symm
  · next several => exact several

/-- A function type is taken apart into what its declarator lists. -/
theorem Tree.DeclaresFunction.functionParts {good : Encoding → Prop} {declarator : Node}
    {type : Encoding} (declares : declarator.DeclaresFunction good type)
    (spelled : ∀ name, good name → Spelled (fun _ => True) name.bytes) :
    ∃ result, type.functionParts = .ok (declarator.parameterList.listedTypes ++
      (if declarator.parameterList.listsEllipsis then [.builtin 'e'] else []), result) := by
  rcases declares.parameters with ⟨parameters, result, composed, made⟩
  refine ⟨result, ?_⟩
  rw [Encoding.functionParts_function (fun parameter member =>
    (parameters parameter member).spelled spelled) (composed.spelled spelled) made,
    if_neg fun both => listedTypes_ne_void _ both.1]

/-- What the nodes of a parsed text carry.  A qualified name that a node carries is written in the
tree, and taking a name apart gives a component for each that is written, up to the 127 that its
encoding can count.  All encodings are complete just where the components of all names can be
counted, and then taking a function type apart gives the types of the parameters listed. -/
theorem encodings_parse {file source : String} {options : ParseOptions} {parsed : Parsed}
    (parses : parse file source options = .ok parsed) :
    (∀ node ∈ parsed.tree.preorder, ∀ encoding, node.Carries encoding →
      encoding.isQualified = true → parsed.tree.WrittenIn encoding) ∧
    (∀ name ∈ parsed.tree.preorder, name.isA .name = true → ∃ encoding parts,
      name.name? = some encoding ∧ encoding.names = .ok parts ∧
        parts.length = min name.componentCount Encoding.limit ∧
        (Encoding.extent encoding.bytes = some encoding.bytes.length ↔
          name.componentCount ≤ Encoding.limit)) ∧
    ((∀ node ∈ parsed.tree.preorder, ∀ encoding, node.Carries encoding →
      Encoding.extent encoding.bytes = some encoding.bytes.length) ↔ parsed.tree.Countable) ∧
    (parsed.tree.Countable → ∀ node ∈ parsed.tree.preorder, ∀ type, node.type? = some type →
      type.isFunction = true → node.typeDeclarator.isA .declarator = true ∧
        node.typeDeclarator.type? = some type ∧ ∃ result, type.functionParts =
          .ok (node.typeDeclarator.parameterList.listedTypes ++
            (if node.typeDeclarator.parameterList.listsEllipsis then [.builtin 'e'] else []),
            result)) := by
  have tells := everywhere_tells_parse parses
  refine ⟨fun node member encoding carries isQualified =>
      ((tells node member).composed encoding carries).good_of_isQualified isQualified,
    fun name member is => ?_, ⟨fun complete name member is => ?_,
      fun countable node member encoding carries => ?_⟩,
    fun countable node member type same isFunction => ?_⟩
  · rcases (tells name member).written is with ⟨parts, joined, named, components, counted⟩
    refine ⟨_, _, joined, Encoding.names_qualified_of_ne_nil named components, ?_, ?_⟩
    · rw [List.length_take, counted, Nat.min_comm]
    · rw [← counted]
      exact Encoding.extent_qualified_iff named components
  · rcases (tells name member).written is with ⟨parts, joined, named, components, counted⟩
    rw [← counted]
    exact (Encoding.extent_qualified_iff named components).mp
      (complete name member _ (.inl joined))
  · have ends := (((tells node member).composed encoding carries).spelled
      fun name written => written.spelled tells countable).extent_append []
    rw [List.append_nil] at ends
    exact ends
  · have declares := (tells node member).declares type same isFunction
    exact ⟨declares.isA, declares.typed,
      declares.functionParts fun name written => written.spelled tells countable⟩

/-- A name from the global scope on with a single `void` as its parameter list, and a function
with a qualified name and an ellipsis among its parameters. -/
theorem encodings_parse_ellipsis :
    ∃ parsed, parse "" "int ::a::f(void), g(a::b<int>, char*, ...);" {} = .ok parsed ∧
      (parsed.tree.preorder.filter (·.isA .name)).map Tree.componentCount = [3, 2] ∧
      ((parsed.tree.preorder.filterMap Tree.type?).filter Encoding.isFunction).map
        (·.functionParts.toOption) =
        [some ([], .builtin 'i'),
          some ([.qualified [.simpleName "a", .templateId "b" [.builtin 'i']],
            (Encoding.builtin 'c').pointerTo, .builtin 'e'], .builtin 'i')] ∧
      (∀ node ∈ parsed.tree.preorder, ∀ encoding, node.Carries encoding →
        Encoding.extent encoding.bytes = some encoding.bytes.length) ∧
      ∀ node ∈ parsed.tree.preorder, ∀ type, node.type? = some type → type.isFunction = true →
        node.typeDeclarator.isA .declarator = true ∧ node.typeDeclarator.type? = some type ∧
          ∃ result, type.functionParts = .ok (node.typeDeclarator.parameterList.listedTypes ++
            (if node.typeDeclarator.parameterList.listsEllipsis then [.builtin 'e'] else []),
            result) := by
  have read : (parse "" "int ::a::f(void), g(a::b<int>, char*, ...);" {}).toOption.map
      (fun parsed => ((parsed.tree.preorder.filter (·.isA .name)).map Tree.componentCount,
        ((parsed.tree.preorder.filterMap Tree.type?).filter Encoding.isFunction).map
          (·.functionParts.toOption))) =
      some ([3, 2], [some ([], .builtin 'i'),
        some ([.qualified [.simpleName "a", .templateId "b" [.builtin 'i']],
          (Encoding.builtin 'c').pointerTo, .builtin 'e'], .builtin 'i')]) := by
    decide +kernel
  cases parses : parse "" "int ::a::f(void), g(a::b<int>, char*, ...);" {} with
  | error stop => rw [parses] at read; cases read
  | ok parsed =>
    rw [parses] at read
    rcases Prod.mk.inj (Option.some.inj read) with ⟨counts, functions⟩
    have countable : parsed.tree.Countable := by
      intro name member is
      have count : name.componentCount ∈ [3, 2] :=
        counts ▸ List.mem_map_of_mem (List.mem_filter.mpr ⟨member, is⟩)
      have few : ∀ count ∈ [3, 2], count ≤ Encoding.limit := by decide
      exact few _ count
    rcases encodings_parse parses with ⟨_, _, complete, parameters⟩
    exact ⟨parsed, rfl, counts, functions, complete.mpr countable, parameters countable⟩

end CppNames
