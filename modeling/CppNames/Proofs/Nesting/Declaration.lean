import CppNames.Grammar.Parse
import CppNames.Proofs.Nesting.Declarator

namespace CppNames
namespace Grammar

/-!
# How declarations and statements rise, and how deep trees are nested

Declarations and statements are nested, so nothing of them rises.  All productions of one level
of recursion are bounded if those of the level below are, which bounds the tree of a text: it
has some lists for each level of nesting, and as many for each uncounted list nested inside
another.  The limit alone gives no such bound, since parameters take no level.
-/

open CppNames.Tree (Rises AllRise IsToken allRise_nil rises_nil)

variable {g : Productions} {tally : Tally} {limit room : Nat}

/-! ## Simple declarations -/

theorem usingForm_builds (bounded : Bounded tally limit g) :
    Builds limit room (usingForm g) (Rises tally limit room (2 * tally.links room + 8)) := by
  refine .bind .take fun keyword token => ?_
  refine .optional (fun nominates tokenNominates => ?_) ?_
  · refine .bind (name_builds bounded false) fun named rises => ?_
    refine .bind .expect fun semicolon tokenBehind => .pure ?_
    have parts : AllRise tally limit room (2 * tally.links room + 7)
        [keyword, nominates, named.tree, semicolon] :=
      .cons token.rises (.cons tokenNominates.rises (.cons (rises.mono (by omega))
        tokenBehind.rises.single))
    exact parts.rises_encodedList _ _ _
  · have lost : Builds limit room (discard (take? .kwTypename)) fun _ => True :=
      .map (Builds.take?.weaken fun _ _ => trivial)
    refine .behind lost fun _ => .bind (name_builds bounded false) fun named rises => ?_
    refine .bind .expect fun semicolon tokenBehind => .pure ?_
    have parts : AllRise tally limit room (2 * tally.links room + 7)
        [keyword, named.tree, semicolon] :=
      .cons token.rises (.cons (rises.mono (by omega)) tokenBehind.rises.single)
    exact parts.rises_encodedList _ _ _

theorem typedefDeclarators_builds (bounded : Bounded tally limit g) (base : Encoding) :
    Builds limit room (typedefDeclarators g base)
      (AllRise tally limit room (2 * tally.links room + 4)) := by
  refine .commaSeparated (.bind (declarator_builds bounded base .named) fun declared rises => ?_)
  cases declared.name with
  | none => exact .pure rises.single
  | some text => exact .behind (.learnType text) fun _ => .pure rises.single

theorem typedefDeclaration_builds (bounded : Bounded tally limit g) :
    Builds limit room (typedefDeclaration g)
      (Rises tally limit room (2 * tally.links room + 8)) := by
  refine .bind .take fun keyword token => ?_
  refine .bind (specifiers_builds bounded .namespaceBody) fun read low => ?_
  refine .bind (typedefDeclarators_builds bounded read.encoding) fun declarators all => ?_
  refine .bind .expect fun semicolon tokenBehind => .pure ?_
  exact AllRise.rises_list (.cons token.rises (.cons (low.type.mono (by omega))
    (.cons (all.rises_seq.mono (by omega)) tokenBehind.rises.single))) _

theorem statements_builds (bounded : Bounded tally limit g) :
    Builds limit room (statements g) (AllRise tally limit room 0) := by
  refine .repeatFrom (AllRise tally limit room 0) allRise_nil fun read all => .kind fun found => ?_
  split
  · exact .pure all
  · exact .bind (.recovering (bounded.statement room)) fun more allMore =>
      .pure (all.append allMore)

theorem block_builds (bounded : Bounded tally limit g) :
    Builds limit room (block g) (Rises tally limit room 2) := by
  refine .bind .expect fun opening token => ?_
  refine .bind (.inBlock (statements_builds bounded)) fun read all => ?_
  refine .bind .expect fun closing tokenClosing => .pure ?_
  exact AllRise.rises_list (.cons token.rises (.cons all.rises_seq tokenClosing.rises.single)) _

theorem memberInitializer_builds (bounded : Bounded tally limit g) :
    Builds limit room (memberInitializer g) (Rises tally limit room (tally.links room + 4)) := by
  refine .bind (name_builds bounded true) fun named rises => ?_
  refine .bind .expect fun opening token => ?_
  refine .bind (arguments_builds bounded) fun operands risesOperands => ?_
  refine .bind .expect fun closing tokenClosing => .pure ?_
  exact AllRise.rises_seq (.cons rises (.cons token.rises
    (.cons (risesOperands.mono (Nat.le_succ _)) tokenClosing.rises.single)))

theorem memberInitializers_builds (bounded : Bounded tally limit g) :
    Builds limit room (memberInitializers g) (AllRise tally limit room (tally.links room + 5)) := by
  refine .optional (fun colon token => ?_) (.pure allRise_nil)
  have item : Builds limit room (do return [← memberInitializer g])
      (AllRise tally limit room (tally.links room + 4)) :=
    .bind (memberInitializer_builds bounded) fun tree rises => .pure rises.single
  exact .bind (.commaSeparated item) fun items all =>
    .pure (AllRise.rises_seq (.cons token.rises all)).single

theorem moreDeclarators_builds (bounded : Bounded tally limit g) (base : Encoding)
    (form : DeclaratorForm) {first : Tree.Plain}
    (rises : first.Rises tally limit room (2 * tally.links room + 4)) :
    Builds limit room (moreDeclarators g base form first)
      (AllRise tally limit room (2 * tally.links room + 4)) := by
  refine .repeatFrom
    (AllRise tally limit room (2 * tally.links room + 4)) rises.single fun read all => ?_
  refine .optional (fun comma token => ?_) (.pure all)
  exact .bind (declarator_builds bounded base form) fun declared risesMore =>
    .pure (all.append (.cons token.rises risesMore.single))

theorem simpleDeclaration_builds (bounded : Bounded tally limit g) (place : Place) :
    Builds limit room (simpleDeclaration g place)
      (Rises tally limit room (2 * tally.links room + 8)) := by
  refine .bind (specifiers_builds bounded place) fun read low => ?_
  have front : AllRise tally limit room (2 * tally.links room + 7) [read.storage, read.type] :=
    .cons (low.storage.mono (by omega)) (low.type.mono (by omega)).single
  refine .optional (fun semicolon token => ?_) ?_
  · dsimp only
    split
    · exact .fail
    · exact .pure (AllRise.rises_list (front.append (.cons rises_nil token.rises.single)) _)
  · refine .bind (declarator_builds bounded read.encoding _) fun first rises =>
      .kind fun found => ?_
    split
    · refine .bind (memberInitializers_builds bounded) fun members all => ?_
      refine .bind (block_builds bounded) fun body risesBody => .pure ?_
      have declared := front.append (rises.mono (by omega)).single
      exact AllRise.rises_list ((declared.append (all.mono (by omega))).append
        (risesBody.mono (by omega)).single) _
    · refine .bind (moreDeclarators_builds bounded read.encoding _ rises) fun declarators all => ?_
      refine .bind .expect fun semicolon token => .pure ?_
      exact AllRise.rises_list (front.append (.cons (all.rises_seq.mono (by omega))
        token.rises.single)) _

/-! ## Templates -/

theorem typeParameterDefault_builds (bounded : Bounded tally limit g) :
    Builds limit room (typeParameterDefault g) (AllRise tally limit room 0) := by
  refine .optional (fun equals token => ?_) (.pure allRise_nil)
  exact .bind (bounded.typeId room) fun type rises => .pure (.cons token.rises rises.single)

theorem typeParameter_builds (bounded : Bounded tally limit g) :
    Builds limit room (typeParameter g) (Rises tally limit room 1) := by
  refine .bind .take fun keyword token => .bind .take? fun named tokens => ?_
  refine .bind (typeParameterDefault_builds bounded) fun fallback all => ?_
  refine .behind (typeNameEncoding_builds named) fun encoding => .pure ?_
  have front : AllRise tally limit room 0 [keyword, named.getD Tree.nil] :=
    .cons token.rises (rises_optional tokens).single
  exact (front.append all).rises_encodedList _ _ _

theorem templateParameter_builds (bounded : Bounded tally limit g) :
    Builds limit room (templateParameter g) (Rises tally limit room 1) := by
  refine .kind fun found => .kindBehind fun foundBehind => ?_
  split
  · exact typeParameter_builds bounded
  · exact .bind (.inTemplate (bounded.parameter room)) fun parameter rises =>
      .pure (rises.mono (Nat.zero_le _))

theorem templateParameters_builds (bounded : Bounded tally limit g) :
    Builds limit room (templateParameters g) (AllRise tally limit room 1) := by
  refine .behind .splitShift fun _ => .sees (.pure allRise_nil) (.commaSeparated ?_)
  exact .bind (templateParameter_builds bounded) fun tree rises => .pure rises.single

theorem templateDeclaration_builds (bounded : Bounded tally limit g) (place : Place) :
    Builds limit room (templateDeclaration g place) (Rises tally limit room 3) := by
  refine .bind .take fun keyword token => .bind .expect fun opening tokenOpening => ?_
  refine .bind (templateParameters_builds bounded) fun parameters all => ?_
  refine .bind .expect fun closing tokenClosing => ?_
  refine .bind (.underTemplateHeader (bounded.declaration room place)) fun declared rises => ?_
  have parts : AllRise tally limit room 2
      [keyword, opening, Tree.seq parameters, closing, declared] :=
    .cons token.rises (.cons tokenOpening.rises (.cons all.rises_seq (.cons tokenClosing.rises
      (rises.mono (Nat.zero_le _)).single)))
  cases declaredFunction? declared with
  | none => exact .pure (parts.rises_list _)
  | some text => exact .behind (.learnTemplate text) fun _ => .pure (parts.rises_list _)

/-! ## Declarations -/

theorem namespaceDeclaration_builds (bounded : Bounded tally limit g) :
    Builds limit room (namespaceDeclaration g) (Rises tally limit room 3) := by
  refine .bind .take fun keyword token => .bind .take? fun named tokens => ?_
  refine .bind (braced_builds bounded .brace .namespaceBody) fun body rises => .pure ?_
  exact AllRise.rises_encodedList
    (.cons token.rises (.cons (rises_optional tokens) rises.single)) _ _ _

theorem linkageDeclaration_builds (bounded : Bounded tally limit g) (place : Place) :
    Builds limit room (linkageDeclaration g place) (Rises tally limit room 3) := by
  refine .bind .take fun keyword token => .bind .take fun language tokenLanguage => ?_
  have single : Builds limit room (g.declaration place) (Rises tally limit room 2) :=
    (bounded.declaration room place).higher (Nat.zero_le _)
  refine .seesBind (braced_builds bounded _ _) single fun body rises => .pure ?_
  exact AllRise.rises_list (.cons token.rises (.cons tokenLanguage.rises rises.single)) _

theorem accessDeclaration_builds :
    Builds limit room accessDeclaration (Rises tally limit room 1) := by
  refine .bind .take fun access token => .bind .expect fun colon tokenColon => .pure ?_
  have parts : AllRise tally limit room 0 [access, colon] :=
    .cons token.rises tokenColon.rises.single
  exact parts.rises_list _

theorem declaration_builds (bounded : Bounded tally limit g) (place : Place) :
    Builds limit room (declaration g place) (Rises tally limit room 0) := by
  refine .nestedRises (fun links => 2 * links + 8) (fun links le => by omega) fun less => ?_
  refine .kind fun found => ?_
  split
  · exact (namespaceDeclaration_builds bounded).higher (by omega)
  · exact usingForm_builds bounded
  · exact (templateDeclaration_builds bounded place).higher (by omega)
  · exact typedefDeclaration_builds bounded
  · refine .bind .take fun semicolon token => .pure ?_
    have parts : AllRise tally limit less (2 * tally.links less + 7)
        [Tree.nil, Tree.nil, Tree.nil, semicolon] :=
      .cons rises_nil (.cons rises_nil (.cons rises_nil token.rises.single))
    exact parts.rises_list _
  · refine .kindBehind fun foundBehind => ?_
    split
    · exact (linkageDeclaration_builds bounded place).higher (by omega)
    · split
      · exact accessDeclaration_builds.higher (by omega)
      · exact simpleDeclaration_builds bounded place

/-! ## Statements -/

theorem condition_builds (bounded : Bounded tally limit g) :
    Builds limit room (condition g) (AllRise tally limit room (2 * tally.links room + 1)) := by
  refine .bind .expect fun opening token => ?_
  refine .bind (bounded.expression room) fun value rises => ?_
  refine .bind .expect fun closing tokenClosing => .pure ?_
  exact .cons token.rises (.cons rises tokenClosing.rises.single)

theorem body_builds (bounded : Bounded tally limit g) :
    Builds limit room g.statement (Rises tally limit room (2 * tally.links room + 1)) :=
  (bounded.statement room).higher (Nat.zero_le _)

theorem alternative_builds (bounded : Bounded tally limit g) :
    Builds limit room (alternative g) (AllRise tally limit room (2 * tally.links room + 1)) := by
  refine .optional (fun keyword token => ?_) (.pure allRise_nil)
  exact .bind (body_builds bounded) fun body rises => .pure (.cons token.rises rises.single)

theorem ifStatement_builds (bounded : Bounded tally limit g) :
    Builds limit room (ifStatement g) (Rises tally limit room (2 * tally.links room + 2)) := by
  refine .bind .take fun keyword token => .bind (condition_builds bounded) fun test all => ?_
  refine .bind (body_builds bounded) fun chosen rises => ?_
  refine .bind (alternative_builds bounded) fun otherwise allOtherwise => .pure ?_
  have front : AllRise tally limit room (2 * tally.links room + 1)
      ([keyword] ++ test ++ [chosen]) :=
    (AllRise.append token.rises.single all).append rises.single
  exact (front.append allOtherwise).rises_list _

theorem whileStatement_builds (bounded : Bounded tally limit g) :
    Builds limit room (whileStatement g) (Rises tally limit room (2 * tally.links room + 2)) := by
  refine .bind .take fun keyword token => .bind (condition_builds bounded) fun test all => ?_
  refine .bind (body_builds bounded) fun body rises => .pure ?_
  have front : AllRise tally limit room (2 * tally.links room + 1) ([keyword] ++ test) :=
    AllRise.append token.rises.single all
  exact (front.append rises.single).rises_list _

theorem doStatement_builds (bounded : Bounded tally limit g) :
    Builds limit room (doStatement g) (Rises tally limit room (2 * tally.links room + 2)) := by
  refine .bind .take fun keyword token => .bind (body_builds bounded) fun body rises => ?_
  refine .bind .expect fun whileKeyword tokenWhile => ?_
  refine .bind (condition_builds bounded) fun test all => ?_
  refine .bind .expect fun semicolon tokenBehind => .pure ?_
  have front : AllRise tally limit room (2 * tally.links room + 1) [keyword, body, whileKeyword] :=
    .cons token.rises (.cons rises tokenWhile.rises.single)
  exact ((front.append all).append tokenBehind.rises.single).rises_list _

theorem optionalExpression_builds (bounded : Bounded tally limit g) (closing : Token.Kind) :
    Builds limit room (optionalExpression g closing)
      (Rises tally limit room (2 * tally.links room + 1)) :=
  .sees (.pure rises_nil) (bounded.expression room)

theorem forStatement_builds (bounded : Bounded tally limit g) :
    Builds limit room (forStatement g) (Rises tally limit room (2 * tally.links room + 2)) := by
  refine .bind .take fun keyword token => .bind .expect fun opening tokenOpening => ?_
  refine .bind (body_builds bounded) fun first risesFirst => ?_
  refine .bind (optionalExpression_builds bounded _) fun test risesTest => ?_
  refine .bind .expect fun semicolon tokenSemicolon => ?_
  refine .bind (optionalExpression_builds bounded _) fun step risesStep => ?_
  refine .bind .expect fun closing tokenClosing => ?_
  refine .bind (body_builds bounded) fun body rises => .pure ?_
  exact AllRise.rises_list (.cons token.rises (.cons tokenOpening.rises (.cons risesFirst
    (.cons risesTest (.cons tokenSemicolon.rises (.cons risesStep (.cons tokenClosing.rises
      rises.single))))))) _

theorem returnStatement_builds (bounded : Bounded tally limit g) :
    Builds limit room (returnStatement g) (Rises tally limit room (2 * tally.links room + 2)) := by
  refine .bind .take fun keyword token => ?_
  refine .bind (optionalExpression_builds bounded _) fun value rises => ?_
  refine .bind .expect fun semicolon tokenBehind => .pure ?_
  exact AllRise.rises_list (.cons token.rises (.cons rises tokenBehind.rises.single)) _

theorem jumpStatement_builds (construct : Construct) :
    Builds limit room (jumpStatement construct) (Rises tally limit room 1) := by
  refine .bind .take fun keyword token => .bind .expect fun semicolon tokenBehind => .pure ?_
  have parts : AllRise tally limit room 0 [keyword, semicolon] :=
    .cons token.rises tokenBehind.rises.single
  exact parts.rises_list _

theorem expressionStatement_builds (bounded : Bounded tally limit g) :
    Builds limit room (expressionStatement g)
      (Rises tally limit room (2 * tally.links room + 2)) := by
  refine .bind (bounded.expression room) fun value rises => ?_
  refine .bind .expect fun semicolon tokenBehind => .pure ?_
  exact AllRise.rises_list (.cons rises tokenBehind.rises.single) _

theorem statement_builds (bounded : Bounded tally limit g) :
    Builds limit room (statement g) (Rises tally limit room 0) := by
  refine .nestedRises (fun links => 2 * links + 8) (fun links le => by omega) fun less => ?_
  refine .kind fun found => ?_
  split
  · exact (block_builds bounded).higher (by omega)
  · exact (ifStatement_builds bounded).higher (by omega)
  · exact (whileStatement_builds bounded).higher (by omega)
  · exact (doStatement_builds bounded).higher (by omega)
  · exact (forStatement_builds bounded).higher (by omega)
  · exact (returnStatement_builds bounded).higher (by omega)
  · exact (jumpStatement_builds _).higher (by omega)
  · exact (jumpStatement_builds _).higher (by omega)
  · refine .bind .take fun semicolon token => .pure ?_
    have parts : AllRise tally limit less (2 * tally.links less + 7) [Tree.nil, semicolon] :=
      .cons rises_nil token.rises.single
    exact parts.rises_list _
  · exact usingForm_builds bounded
  · exact typedefDeclaration_builds bounded
  · unfold plainStatement
    split
    · exact simpleDeclaration_builds bounded .block
    · refine .asks fun declares => ?_
      split
      · exact simpleDeclaration_builds bounded .block
      · exact (expressionStatement_builds bounded).higher (by omega)

/-! ## Texts -/

theorem bounded_productions (tally : Tally) (limit level : Nat) :
    Bounded tally limit (productions level) := by
  induction level with
  | zero => exact bounded_exhausted limit
  | succ level ih =>
    exact
      { typeId := fun _ => typeId_builds ih
        assignment := fun _ => assignmentExpression_builds ih
        expression := fun _ => commaExpression_builds ih
        cast := fun _ => castExpression_builds ih
        binary := fun _ minimum => binaryExpression_builds ih minimum
        initializers := fun _ => initializerList_builds ih
        parameter := fun _ => parameterDeclaration_builds ih
        declaration := fun _ place => declaration_builds ih place
        statement := fun _ => statement_builds ih }

theorem unit_builds (tally : Tally) : Builds limit room unit (Rises tally limit room 1) :=
  .ask (fun _ => rfl) fun _ =>
    .bind (declarationList_builds (bounded_productions tally limit _) .file) fun _ all =>
      .pure all.rises_seq

end Grammar

/-- The lists of a parsed text are nested by no more than each level up to the limit, and each
list that counts for itself, may bring, and once for the list of declarations. -/
theorem nestedLists_le (tally : Tally) {file source : String} {options : ParseOptions}
    {parsed : Parsed} (parses : parse file source options = .ok parsed) :
    parsed.tree.nestedLists ≤ (3 * tally.links options.maxDepth + 8) *
      (options.maxDepth + parsed.tree.tallied tally) + 1 := by
  rcases of_parse parses with ⟨tree, state, runs, rfl⟩
  have begins : (Grammar.State.ofTokens options.maxDepth
      (tokenize file options.cxx source).1).At options.maxDepth options.maxDepth :=
    ⟨rfl, Nat.zero_add _⟩
  have built := Grammar.unit_builds tally _ begins
  rw [runs] at built
  unfold Tree.nestedLists Tree.tallied
  rw [Tree.nesting_numbered, Tree.nesting_numbered]
  exact built.1

/-- Where types, parameters, conditional expressions and links of chains are nested inside one
another at most one deeper than the limit, no more than sixteen lists are nested for each level
and one more.  Without a bound on these, which the limit does not give, the lists are nested by
no more than `3 * limit + 8` for each level and for each type, parameter or conditional
expression inside another, and once for the list of declarations. -/
theorem nestedLists_parse {file source : String} {options : ParseOptions} {parsed : Parsed}
    (parses : parse file source options = .ok parsed) :
    (parsed.tree.tallied .withLinks ≤ options.maxDepth + 1 →
      parsed.tree.nestedLists ≤ 16 * (options.maxDepth + 1)) ∧
    parsed.tree.nestedLists ≤ (3 * options.maxDepth + 8) *
      (options.maxDepth + parsed.tree.tallied .uncounted) + 1 := by
  have withLinks : parsed.tree.nestedLists ≤
      8 * (options.maxDepth + parsed.tree.tallied .withLinks) + 1 :=
    nestedLists_le .withLinks parses
  refine ⟨fun few => by omega, ?_⟩
  exact nestedLists_le .uncounted parses

/-- Parameters inside parameters, with one level allowed: more than 32 lists are nested and
nothing is reported. -/
theorem nestedLists_parse_parameters :
    ∃ parsed,
      parse "" "void g(int f(int f(int f(int f(int f(int f(int f(int f(int f(int))))))))));"
        ⟨true, 1⟩ = .ok parsed ∧
      parsed.errors = [] ∧ 32 < parsed.tree.nestedLists ∧
      ¬ parsed.tree.tallied .withLinks ≤ 1 + 1 ∧
      parsed.tree.nestedLists ≤ (3 * 1 + 8) * (1 + parsed.tree.tallied .uncounted) + 1 := by
  have deep :
      (match parse "" "void g(int f(int f(int f(int f(int f(int f(int f(int f(int f(int))))))))));"
          ⟨true, 1⟩ with
        | .ok parsed => parsed.errors.isEmpty && decide (32 < parsed.tree.nestedLists)
        | .error _ => false) = true := by
    decide +kernel
  split at deep
  · next parsed runs =>
    rcases Bool.and_eq_true_iff.mp deep with ⟨accepted, more⟩
    have beyond : 32 < parsed.tree.nestedLists := of_decide_eq_true more
    rcases nestedLists_parse runs with ⟨few, bounded⟩
    exact ⟨parsed, runs, List.isEmpty_iff.mp accepted, beyond,
      fun low => absurd (few low) (Nat.not_le_of_lt beyond), bounded⟩
  · cases deep

end CppNames
