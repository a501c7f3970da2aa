import CppNames.Proofs.Carried.Parse
import CppNames.Proofs.Reference.Shut
import CppNames.Proofs.Unit.Analyze

namespace CppNames

/-!
# Uses in the bodies of functions

Every identifier that stands as an operand in the body of a function lies in the span of exactly
one use.  Uses stand at names that stand apart in the tree, these names were read in pieces of
the text that follow one another, and a name covers all of its own identifiers.

All other identifiers stand in parts that `Reference.shut` lists.  Most of these are no place for
an operand.  But some of them are, and the pass leaves them out.  It does not look into type
definitions, not even for the functions of a class that one of them defines.  Inside a function it
passes over the declarators and the enumerators of a type definition, over the classes and
enumerators in the type of a parameter, and over the defaults and bounds in the parameters of a
template.  And of a declarator that declares nothing it takes the first name for the declared one.
-/

open Token (InOrder)
open CppNames.Tree (Before)
open Reference (HasOperand IsNamed Passes Reaches Shuts opened)

/-- Whether a use covers a token. -/
def Reference.covers (reference : Reference) (token : Token) : Bool :=
  reference.span.any (·.covers token.span)

/-- The tree of a text spells tokens that stand in order. -/
theorem exists_spells_parse {file source : String} {options : ParseOptions} {parsed : Parsed}
    (parses : parse file source options = .ok parsed) :
    ∃ read, parsed.tree.strip.Spells read ∧ InOrder read := by
  have scanned := Token.tokenize_eq file options.cxx source
  have laid := Token.laid_ofText file options.cxx source
  rcases of_parse parses with ⟨tree, state, runs, rfl⟩
  have ends := Grammar.unit_reads (Grammar.State.ofTokens options.maxDepth
    (tokenize file options.cxx source).1) trivial
  rw [runs] at ends
  rcases ends with ⟨read, shaped, progress⟩
  rcases progress.passed with ⟨passed, halved, sublist, _⟩
  rw [scanned, Grammar.tokens_ofTokens_concat] at halved
  refine ⟨read, ?_, ?_⟩
  · rw [Tree.strip_numbered]
    exact shaped.spells
  · have inOrder := halved.inOrder laid.inOrder laid.shifts
    exact inOrder.sublist (sublist.trans (List.sublist_append_left ..))

section Names

variable {tree : Node} {good : Encoding → Prop} {node : Node}

/-- A name in a parsed tree begins with a token that a name can begin with. -/
theorem isLed_of_isNamed (tells : tree.Everywhere (Tree.Tells good)) (member : node ∈ tree.preorder)
    (named : IsNamed node) : node.IsLed := by
  cases node with
  | nil => exact absurd named Reference.not_isNamed_nil
  | leaf label token =>
    refine .inl ?_
    rw [Tree.isToken, Tree.kind?, Tree.token?, Option.map_some,
      (Reference.isNamed_leaf label token).mp named]
    rfl
  | cell label construct name type head tail =>
    have isName : (Tree.cell label construct name type head tail).isA .name = true := by
      rw [(Reference.isNamed_cell.mp named).1]
      rfl
    exact .inr ⟨isName, (tells _ member).led isName⟩

/-- A name in a parsed tree carries its encoding. -/
theorem isNamed_of_isDeclaredName (tells : tree.Everywhere (Tree.Tells good))
    (member : node ∈ tree.preorder) (isName : node.isDeclaredName = true) : IsNamed node := by
  cases node with
  | nil => cases isName
  | leaf label token =>
    rcases Bool.or_eq_true_iff.mp isName with identifier | isList
    · exact (Reference.isNamed_leaf label token).mpr (Option.some.inj (eq_of_beq identifier))
    · cases isList
  | cell label construct name type head tail =>
    have isList : (Tree.cell label construct name type head tail).isA .name = true := isName
    rcases (tells _ member).written isList with ⟨parts, encoded, _⟩
    refine Reference.isNamed_cell.mpr ⟨Option.some.inj (eq_of_beq isList), ?_⟩
    exact Option.isSome_of_eq_some encoded

end Names

section Text

variable {file source : String} {options : ParseOptions} {parsed : Parsed}

/-- Names that stand apart in the tree of a text follow one another in the text. -/
theorem pairwise_before_of_parse (parses : parse file source options = .ok parsed)
    {names : List Node} (apart : parsed.tree.Apart names) (named : ∀ name ∈ names, IsNamed name) :
    names.Pairwise Before ∧ ∀ name ∈ names, ∀ token ∈ name.identifiers,
      token.pos < token.span.stop ∧ name.spans token = true := by
  rcases exists_spells_parse parses with ⟨read, spells, inOrder⟩
  have led : ∀ name ∈ names.map Tree.strip, name.IsLed := by
    rw [List.forall_mem_map]
    intro name member
    rw [Tree.isLed_strip]
    exact isLed_of_isNamed (everywhere_tells_parse parses)
      (apart.mem_preorder member (named name member).isNil_eq) (named name member)
  have segmented := spells.segmented.1 _ apart.strip led
  constructor
  · have ordered := List.pairwise_map.mp (segmented.pairwise_before inOrder)
    exact ordered.imp fun before => (Tree.before_strip _ _).mp before
  · intro name member token among
    have inside : name.strip ∈ names.map Tree.strip := List.mem_map_of_mem member
    rcases segmented.exists_of_mem inside with ⟨segment, own, part⟩
    rw [← Tree.identifiers_strip] at among
    rw [← Tree.spans_strip]
    have ordered := inOrder.sublist part
    refine ⟨ordered.nonempty token ?_,
      Tree.spans_of_mem_identifiers (led _ inside) own ordered among⟩
    exact own.subperm.subset (Tree.mem_tokens_of_identifiers among)

/-- Every identifier of an operand that is reached from the tree of a text lies in the span of
exactly one use, whatever was bound. -/
theorem countP_covers (parses : parse file source options = .ok parsed)
    {setting : Reference.Setting} {findings : Findings}
    (finds : findReferences setting parsed.tree = .ok findings) {token : Token}
    (has : HasOperand parsed.tree.present token) :
    findings.references.countP (·.covers token) = 1 := by
  rcases has with ⟨item, member, operand, reaches, isName, among⟩
  rcases Reference.exists_names_of_findReferences finds with ⟨names, apart, named, spans, reached⟩
  rcases reached item member operand reaches isName with ⟨inside, found⟩
  have isOne : operand ∈ names :=
    found (isNamed_of_isDeclaredName (everywhere_tells_parse parses) inside isName)
  rcases pairwise_before_of_parse parses apart named with ⟨ordered, covering⟩
  rcases covering operand isOne token among with ⟨nonempty, own⟩
  have same : findings.references.countP (·.covers token) = names.countP (·.spans token) := by
    have counted := congrArg (List.countP fun span => span.any (·.covers token.span)) spans
    rw [List.countP_map, List.countP_map] at counted
    exact counted
  rw [same]
  have most := Tree.countP_spans_le ordered nonempty
  have some : 0 < names.countP (·.spans token) := List.countP_pos_iff.mpr ⟨operand, isOne, own⟩
  omega

/-- After a text is bound, the pass over uses meets no malformed construct, and where it ends
with a result it misses no operand in the body of a function.  Every identifier in the body of a
definition, wherever the definition stands, belongs to an operand that the pass reaches, or stands
in a part that it does not look into; and if it belongs to such an operand, it lies in the span of
exactly one use. -/
theorem covered_once_of_bind (parses : parse file source options = .ok parsed)
    {binding : BindOptions} {start : Bound} {log : Log}
    (binds : (bind file binding parsed.tree start).2 = .ok log) (resolveCalls : Bool) :
    let bound := (bind file binding parsed.tree start).1
    let found := findReferences ⟨bound.table, bound.annotations, file, resolveCalls⟩ parsed.tree
    Passes found ∧ ∀ findings, found = .ok findings →
      ∀ definition ∈ parsed.tree.preorder, definition.isA .declaration = true →
        definition.third.isA .declarator = true →
        ∀ atom ∈ definition.last.preorder, ∀ token, atom.token? = some token →
          token.kind = .identifier →
          (HasOperand parsed.tree.present token ∨ Shuts parsed.tree.present atom) ∧
            (HasOperand parsed.tree.present token →
              findings.references.countP (·.covers token) = 1) := by
  intro bound found
  have passes := bind_passes (fits_of_parse parses) file binding start
  refine ⟨findReferences_passes (passes.2 log binds) _ _ _, fun findings finds definition member
    declares _ atom inBody token shows identifier => ⟨?_, countP_covers parses finds⟩⟩
  have list : parsed.tree.isCell = true := by
    cases tree : parsed.tree with
    | nil =>
      rw [tree] at member
      exact absurd member List.not_mem_nil
    | leaf label other =>
      rw [tree] at member
      rw [List.mem_singleton.mp member] at declares
      cases declares
    | cell label construct name type head tail => rfl
  have inDefinition : atom ∈ definition.preorder := by
    rw [← Tree.nth_length_sub_one] at inBody
    exact Tree.mem_preorder_of_nth _ inBody
  have inTree := ((Tree.preorder_sublist _).1 definition member).subset inDefinition
  exact Reference.hasOperand_or_shuts_present list shows identifier inTree

/-- A function in a namespace that uses a variable of the namespace by its qualified name. -/
theorem covered_once_of_bind_qualified :
    ∃ parsed log, parse "" "namespace N{int x;void f(){N::x;}}" {} = .ok parsed ∧
      (bind "" {} parsed.tree {}).2 = .ok log ∧
      let bound := (bind "" {} parsed.tree {}).1
      ∃ findings, findReferences ⟨bound.table, bound.annotations, "", true⟩ parsed.tree =
          .ok findings ∧
        ∃ definition ∈ parsed.tree.preorder, definition.isA .declaration = true ∧
          definition.third.isA .declarator = true ∧
          ∃ atom ∈ definition.last.preorder, ∃ token, atom.token? = some token ∧
            token.text = "x" ∧ token.pos = 30 ∧ token.kind = .identifier ∧
            HasOperand parsed.tree.present token ∧
            findings.references.countP (·.covers token) = 1 := by
  have read : (parse "" "namespace N{int x;void f(){N::x;}}" {}).toOption.map (fun parsed =>
      let item := parsed.tree.nth 0
      let definition := item.third.second.nth 1
      let part := definition.last.second
      let operand := (part.nth 0).nth 0
      let bound := bind "" {} parsed.tree {}
      let found := findReferences ⟨bound.1.table, bound.1.annotations, "", true⟩ parsed.tree
      ([item, item.third.second, definition, definition.third, part, part.nth 0, operand].map
          Tree.construct?,
        operand.identifiers.map fun token => (token.text, token.pos),
        bound.2.toOption.isSome, found.toOption.isSome)) =
      some ([some .namespaceSpec, some .cons, some .declaration, some .declarator, some .cons,
        some .exprStatement, some .name], [("N", 27), ("x", 30)], true, true) := by
    decide +kernel
  cases parses : parse "" "namespace N{int x;void f(){N::x;}}" {} with
  | error stop => rw [parses] at read; cases read
  | ok parsed =>
    rw [parses] at read
    rcases Prod.mk.inj (Option.some.inj read) with ⟨constructs, rest⟩
    rcases Prod.mk.inj rest with ⟨shown, rest⟩
    rcases Prod.mk.inj rest with ⟨isBound, isFound⟩
    simp only [List.map_cons, List.map_nil, List.cons.injEq, and_true] at constructs
    rcases constructs with ⟨item, list, definition, declarator, part, statement, operand⟩
    have isShown : ("x", 30) ∈ [("N", 27), ("x", 30)] :=
      List.mem_cons_of_mem _ (List.mem_singleton_self _)
    rw [← shown] at isShown
    rcases List.mem_map.mp isShown with ⟨token, among, known⟩
    rcases Prod.mk.inj known with ⟨text, pos⟩
    rcases Tree.exists_atom_of_identifiers among with ⟨identifier, atom, inOperand, shows⟩
    cases binds : (bind "" {} parsed.tree {}).2 with
    | error error => rw [binds] at isBound; cases isBound
    | ok log =>
      cases finds : findReferences ⟨(bind "" {} parsed.tree {}).1.table,
          (bind "" {} parsed.tree {}).1.annotations, "", true⟩ parsed.tree with
      | error error => rw [finds] at isFound; cases isFound
      | ok findings =>
        have member := Tree.nth_mem_present item
        have opensList : (parsed.tree.nth 0).third.second ∈ opened (parsed.tree.nth 0) := by
          unfold opened
          rw [item]
          exact Tree.nth_mem_present list
        have opensDefinition : (parsed.tree.nth 0).third.second.nth 1 ∈
            opened (parsed.tree.nth 0).third.second := by
          unfold opened
          rw [list]
          exact Tree.nth_mem_present definition
        have opensPart := Reference.mem_opened_of_body (beq_iff_eq.mpr definition)
          (beq_iff_eq.mpr declarator) (Tree.nth_mem_present part)
        have opensStatement : ((parsed.tree.nth 0).third.second.nth 1).last.second.nth 0 ∈
            opened ((parsed.tree.nth 0).third.second.nth 1).last.second := by
          unfold opened
          rw [part]
          exact Tree.nth_mem_present statement
        have opensOperand : (((parsed.tree.nth 0).third.second.nth 1).last.second.nth 0).nth 0 ∈
            opened (((parsed.tree.nth 0).third.second.nth 1).last.second.nth 0) := by
          unfold opened
          rw [statement]
          exact Tree.nth_mem_present operand
        have reaches : Reaches (parsed.tree.nth 0)
            ((((parsed.tree.nth 0).third.second.nth 1).last.second.nth 0).nth 0) :=
          .head opensList (.head opensDefinition (.head opensPart (.head opensStatement
            (.single opensOperand))))
        have has : HasOperand parsed.tree.present token :=
          ⟨_, member, _, reaches, Bool.or_eq_true_iff.mpr (.inr (beq_iff_eq.mpr operand)), among⟩
        have inTree : (parsed.tree.nth 0).third.second.nth 1 ∈ parsed.tree.preorder := by
          apply Tree.mem_preorder_of_nth 0
          apply Tree.mem_preorder_of_nth 2
          apply Tree.mem_preorder_of_nth 1
          apply Tree.mem_preorder_of_nth 1
          exact Tree.mem_preorder_self (Tree.mem_present (Tree.nth_mem_present definition)).2
        have inBody : atom ∈ ((parsed.tree.nth 0).third.second.nth 1).last.preorder := by
          apply Tree.mem_preorder_of_nth 1
          apply Tree.mem_preorder_of_nth 0
          exact Tree.mem_preorder_of_nth 0 inOperand
        have once := (covered_once_of_bind parses binds true).2 findings finds _ inTree
          (beq_iff_eq.mpr definition) (beq_iff_eq.mpr declarator) _ inBody token shows identifier
        exact ⟨parsed, log, rfl, binds, findings, finds, _, inTree, beq_iff_eq.mpr definition,
          beq_iff_eq.mpr declarator, _, inBody, token, shows, text, pos, identifier, has,
          once.2 has⟩

end Text

end CppNames
