import CppNames.Grammar.Declaration
import CppNames.Proofs.Grammar.Specifier

namespace CppNames
namespace Grammar

/-!
# What declarations read

Every declaration is a list of its own construct.  The definition of a function has a named
declarator and a body, since the form of its declarator requires a name; any other
declaration has a list of declarators, none of which needs a scope.
-/

variable {g : Productions} {place : Where}

namespace Expressions

variable {part whole : Tree.Plain → List Token → Prop} {typed : Encoded → List Token → Prop}

section

variable (holds : Expressions part whole typed g)
include holds

/-! ## Initializers of members and defaults of parameters -/

theorem memberInitializer_reads :
    Reads anywhere (memberInitializer g) part := by
  refine .bind (holds.named true) fun named readNamed both => ?_
  refine .bind (.expect (by decide)) fun opening readOpening leafOpening => ?_
  refine .bind holds.arguments_reads fun operands readOperands operandsPart => ?_
  refine .bind (.expect (by decide)) fun closing readClosing leafClosing => .pure ?_
  exact holds.inherited.seq (.cons (holds.element both.1) (.cons (holds.token leafOpening)
    (.cons operandsPart (.cons (holds.token leafClosing) .nil))))

theorem memberInitializers_reads :
    Reads anywhere (memberInitializers g) (Each part) := by
  refine .optional (by decide) (fun colon readColon leaf => ?_) (.pure .nil)
  have item : Reads anywhere (do return [← memberInitializer g]) (Each part) := by
    refine .bind holds.memberInitializer_reads fun tree read simple => .pure ?_
    rw [List.append_nil]
    exact .single simple
  refine .bind (.commaSeparated item fun tree read leaf => holds.token leaf)
    fun items read each => .pure ?_
  rw [List.append_nil]
  exact .single (holds.inherited.seq (.cons (holds.token leaf) each))

theorem typeParameterDefault_reads :
    Reads anywhere (typeParameterDefault g) (Each part) := by
  refine .optional (by decide) (fun equals readEquals leaf => ?_) (.pure .nil)
  refine .bind holds.typeId fun type readType simple => .pure ?_
  exact .cons (holds.token leaf) (.cons simple .nil)

end

end Expressions

/-! ## Simple declarations -/

theorem usingForm_reads (parses : Parses g) : Reads notAtEnd (usingForm g) Item := by
  refine .bind .takeAny fun keyword readKeyword leaf => ?_
  refine .optional (by decide) (fun nominates readNominates leafNominates => ?_) ?_
  · refine .bind (name_reads parses false) fun named readNamed holds => ?_
    refine .bind (.expect (by decide)) fun semicolon readSemicolon leafSemicolon => .pure ?_
    have parts : Each Shaped [keyword, nominates, named.tree, semicolon]
        (readKeyword ++ (readNominates ++ (readNamed ++ (readSemicolon ++ [])))) :=
      .cons leaf.shaped (.cons leafNominates.shaped (.cons holds.toShaped
        (.cons leafSemicolon.shaped .nil)))
    exact parts.item_encodedList rfl
  · refine .bind (.discard (.take? (by decide))) fun _ readLost found => ?_
    rcases found with ⟨lost, optional⟩
    refine .bind (name_reads parses false) fun named readNamed holds => ?_
    refine .bind (.expect (by decide)) fun semicolon readSemicolon leafSemicolon => .pure ?_
    have behind : Each Shaped [named.tree, semicolon] (readNamed ++ (readSemicolon ++ [])) :=
      .cons holds.toShaped (.cons leafSemicolon.shaped .nil)
    have parts : Each Shaped [keyword, named.tree, semicolon]
        (readKeyword ++ (readNamed ++ (readSemicolon ++ []))) := .cons leaf.shaped behind
    cases lost with
    | none =>
      cases optional
      exact parts.item_encodedList rfl
    | some tree =>
      rcases optional with ⟨token, isTypename, _, rfl⟩
      exact ⟨⟨Tree.throughout_encodedList parts.fits rfl,
        .typename isTypename leaf.shaped.spells behind.spells_seq⟩, rfl⟩

theorem typedefDeclarators_reads (parses : Parses g) (base : Encoding) :
    Reads place (typedefDeclarators g base) (Each Simple) := by
  refine .commaSeparated ?_ fun tree read leaf => leaf.simple
  refine .bind (declarator_reads parses base .named) fun declared read holds => ?_
  have answered : Reads anywhere (pure [declared.tree]) fun trees readBehind =>
      Each Simple trees (read ++ readBehind) := by
    refine .pure ?_
    rw [List.append_nil]
    exact .single holds.toSimple
  cases declared.name with
  | none => exact answered
  | some text => exact .behindSilent (.learnType text) fun _ => answered

theorem typedefDeclaration_reads (parses : Parses g) :
    Reads notAtEnd (typedefDeclaration g) Item := by
  refine .bind .takeAny fun keyword readKeyword leaf => ?_
  refine .bind (specifiers_reads parses .namespaceBody) fun read before specified => ?_
  refine .bind (typedefDeclarators_reads parses read.encoding) fun declarators readDeclarators each => ?_
  refine .bind (.expect (by decide)) fun semicolon readSemicolon leafSemicolon => .pure ?_
  have behind : Each Shaped [Tree.seq declarators, semicolon]
      (readDeclarators ++ (readSemicolon ++ [])) :=
    .cons each.simple_seq.toShaped (.cons leafSemicolon.shaped .nil)
  rcases specified.mixes with ⟨words, same, interleaves⟩
  have fits := List.forall_mem_cons.mpr
    ⟨leaf.shaped.fits, (List.forall_mem_cons.mp (specified.fits behind)).2⟩
  refine ⟨⟨Tree.throughout_encodedList fits fun hides => absurd hides (by decide), ?_⟩, rfl⟩
  rw [same]
  exact .typedefDecl leaf.shaped.spells interleaves behind.spells_seq

/-! ## Blocks -/

theorem statements_reads (parses : Parses g) : Reads place (statements g) (Each Item) := by
  refine .repeatFromNothing (Each Item) .nil fun items read each => .kind fun found => ?_
  split
  · exact .pure (by simpa [Reads.Turns] using each)
  · refine .bind (Reads.recovering parses.statement).ofAnywhere
      fun more readMore eachMore => .pure ?_
    simpa [Reads.Turns] using each.append eachMore

theorem block_reads (parses : Parses g) : Reads anywhere (block g) (Braced .block) := by
  refine .bind (.expect (by decide)) fun opening readOpening leafOpening => ?_
  refine .bind (.inBlock (statements_reads parses)) fun items read each => ?_
  refine .bind (.expect (by decide)) fun closing readClosing leafClosing => .pure ?_
  have parts : Each Shaped [opening, Tree.seq items, closing]
      (readOpening ++ (read ++ (readClosing ++ []))) :=
    .cons leafOpening.shaped (.cons each.items.shaped_seq (.cons leafClosing.shaped .nil))
  exact ⟨parts.item_encodedList fun hides => absurd hides (by decide), rfl⟩

/-! ## Definitions and lists of declarators -/

theorem moreDeclarators_reads (parses : Parses g) (base : Encoding) (form : DeclaratorForm)
    {first : Tree.Plain} {before : List Token} (simple : Simple first before) :
    Reads place (moreDeclarators g base form first) fun trees read =>
      Each Simple trees (before ++ read) := by
  refine .repeatFrom (Each Simple) (Each Simple) (.single simple) fun trees read each => ?_
  refine .optional (by decide) (fun comma readComma leaf => ?_) (.pure ?_)
  · refine .bind (declarator_reads parses base form) fun declared readDeclared holds => .pure ?_
    simpa [Reads.Turns] using each.append (.cons leaf.simple (.single holds.toSimple))
  · simpa [Reads.Turns] using each

theorem fitsDeclaration_definition {storage type declarator body : Tree.Plain}
    {members : List Tree.Plain} (declares : declarator.isA .declarator = true)
    (named : declarator.name?.isSome = true) (unscoped : declarator.Unscoped)
    (isBlock : body.isA .block = true) :
    (Tree.list .declaration ([storage, type, declarator] ++ members ++ [body])).Fits := by
  have third : (Tree.list .declaration ([storage, type, declarator] ++ members ++ [body])).third =
      declarator := rfl
  have last : (Tree.list .declaration ([storage, type, declarator] ++ members ++ [body])).last =
      body := by
    unfold Tree.last Tree.list
    rw [Tree.elements_encodedList]
    have ends : ([storage, type, declarator] ++ members ++ [body]).getLastD .nil = body :=
      List.getLastD_concat
    exact ends
  change Tree.FitsDeclaration _
  unfold Tree.FitsDeclaration
  rw [third, last, if_pos declares]
  exact ⟨named, isBlock, unscoped⟩

theorem fitsDeclaration_list {storage type semicolon : Tree.Plain} {declarators : List Tree.Plain}
    {read : List Token} (each : Each Simple declarators read) :
    (Tree.list .declaration [storage, type, Tree.seq declarators, semicolon]).Fits := by
  have lists : (Tree.seq declarators).isA .declarator = false := by cases declarators <;> rfl
  change Tree.FitsDeclaration _
  unfold Tree.FitsDeclaration
  change if (Tree.seq declarators).isA .declarator = true then _ else
    ∀ declarator ∈ (Tree.seq declarators).present, _
  rw [lists, if_neg (by decide)]
  intro declarator member _
  have inside := (Tree.mem_present member).1
  rw [Tree.elements_seq] at inside
  exact each.unscoped declarator inside

/-- A declaration without declarators. -/
theorem fitsDeclaration_none {storage type semicolon : Tree.Plain} :
    (Tree.list .declaration [storage, type, Tree.nil, semicolon]).Fits := by
  have empty : Each Simple [] [] := .nil
  exact fitsDeclaration_list empty

theorem simpleDeclaration_reads (parses : Parses g) (region : Place) :
    Reads anywhere (simpleDeclaration g region) Item := by
  refine .bind (specifiers_reads parses region) fun read before specified => ?_
  refine .optional (by decide) (fun semicolon readSemicolon leaf => ?_) ?_
  · dsimp only
    split
    · exact .fail
    · refine .pure ?_
      have behind : Each Shaped [Tree.nil, semicolon] ([] ++ (readSemicolon ++ [])) :=
        .cons simple_nil.toShaped (.cons leaf.shaped .nil)
      refine ⟨⟨Tree.throughout_encodedList (specified.fits behind)
        fitsDeclaration_none, ?_⟩, rfl⟩
      rw [List.append_nil, ← List.append_nil readSemicolon]
      exact specified.spells behind (.inl rfl)
  · have formed : ∀ form : DeclaratorForm, form.requiresName = true → Reads anywhere (do
        let first ← declarator g read.encoding form
        if first.isFunction && [.openBrace, .colon].contains (← kind) then
          let members ← memberInitializers g
          let body ← block g
          return Tree.list .declaration
            ([read.storage, read.type, first.tree] ++ members ++ [body])
        else
          let declarators ← moreDeclarators g read.encoding form first.tree
          let semicolon ← expect .semicolon ";"
          return Tree.list .declaration
            [read.storage, read.type, Tree.seq declarators, semicolon])
        fun tree readBehind => Item tree (before ++ readBehind) := by
      intro form required
      refine .bind (declarator_reads parses read.encoding form) fun first readFirst holds => ?_
      refine .kind fun found => ?_
      split
      · refine .bind parses.expressions.memberInitializers_reads.ofAnywhere
          fun members readMembers each => ?_
        refine .bind (block_reads parses) fun body readBody braced => .pure ?_
        have behind : Each Shaped (first.tree :: (members ++ [body]))
            (readFirst ++ (readMembers ++ (readBody ++ []))) := by
          rw [List.append_nil]
          exact .cons holds.toShaped (each.shaped.append (.single braced.toShaped))
        exact ⟨⟨Tree.throughout_encodedList (specified.fits behind)
          (fitsDeclaration_definition holds.declares (holds.named required) holds.unscoped
            braced.isA), specified.spells behind (.inl rfl)⟩, rfl⟩
      · refine .bind (moreDeclarators_reads parses read.encoding form holds.toSimple)
          fun declarators readMore each => ?_
        refine .bind (.expect (by decide)) fun semicolon readSemicolon leaf => .pure ?_
        have behind : Each Shaped [Tree.seq declarators, semicolon]
            ((readFirst ++ readMore) ++ (readSemicolon ++ [])) :=
          .cons each.simple_seq.toShaped (.cons leaf.shaped .nil)
        refine ⟨⟨Tree.throughout_encodedList (specified.fits behind)
          (fitsDeclaration_list each), ?_⟩, rfl⟩
        rw [← List.append_assoc readFirst]
        exact specified.spells behind (.inl rfl)
    by_cases inClass : (region == .classBody) = true
    · rw [if_pos inClass]
      exact formed .member rfl
    · rw [if_neg inClass]
      exact formed .named rfl

/-! ## Templates -/

theorem typeParameter_reads (parses : Parses g) : Reads notAtEnd (typeParameter g) Shaped := by
  refine .bind .takeAny fun keyword readKeyword leaf => ?_
  refine .bind (.take? (by decide)) fun named readNamed optional => ?_
  refine .bind parses.expressions.typeParameterDefault_reads fun fallback readFallback each => ?_
  refine .bind (typeNameEncoding_reads named) fun encoding readEncoding silent => .pure ?_
  cases silent
  simp only [List.append_nil]
  exact Each.shaped_encodedList (.cons leaf.shaped (.cons (optional_shaped optional) each.shaped))
    fun hides => absurd hides (by decide)

theorem templateParameter_reads (parses : Parses g) :
    Reads anywhere (templateParameter g) Shaped := by
  refine .kind fun found => .kindBehind fun foundBehind => ?_
  split
  · next keyword =>
    refine (typeParameter_reads parses).restrict fun tokens begins => ?_
    refine notAtEnd_of_kindOf begins.1.2 fun same => ?_
    rw [same] at keyword
    cases keyword
  · refine .bind (Reads.inTemplate parses.parameter).ofAnywhere fun parameter read simple => .pure ?_
    rw [List.append_nil]
    exact simple.toShaped

theorem templateParameters_reads (parses : Parses g) :
    Reads anywhere (templateParameters g) (Each Shaped) := by
  refine .behindSilent .splitShift fun _ => .sees (.pure .nil) ?_
  refine .commaSeparated ?_ fun tree read leaf => leaf.shaped
  refine .bind (templateParameter_reads parses) fun tree read shaped => .pure ?_
  rw [List.append_nil]
  exact .single shaped

theorem templateDeclaration_reads (parses : Parses g) (region : Place) :
    Reads notAtEnd (templateDeclaration g region) Item := by
  refine .bind .takeAny fun keyword readKeyword leaf => ?_
  refine .bind (.expect (by decide)) fun opening readOpening leafOpening => ?_
  refine .bind (templateParameters_reads parses) fun parameters readParameters each => ?_
  refine .bind (.expect (by decide)) fun closing readClosing leafClosing => ?_
  refine .bind (.underTemplateHeader (parses.declaration region))
    fun declared readDeclared item => ?_
  have answered : Reads anywhere (pure (Tree.list .templateDecl
      [keyword, opening, Tree.seq parameters, closing, declared]))
      fun tree readBehind => Item tree (readKeyword ++ (readOpening ++ (readParameters ++
        (readClosing ++ (readDeclared ++ readBehind))))) := by
    refine .pure ?_
    have parts : Each Shaped [keyword, opening, Tree.seq parameters, closing, declared]
        (readKeyword ++ (readOpening ++ (readParameters ++ (readClosing ++ (readDeclared ++ []))))) :=
      .cons leaf.shaped (.cons leafOpening.shaped (.cons each.shaped_seq
        (.cons leafClosing.shaped (.cons item.toShaped .nil))))
    exact parts.item_encodedList item.there
  cases declaredFunction? declared with
  | none => exact answered
  | some text => exact .behindSilent (.learnTemplate text) fun _ => answered

/-! ## Declarations -/

theorem namespaceDeclaration_reads (parses : Parses g) :
    Reads notAtEnd (namespaceDeclaration g) Item := by
  refine .bind .takeAny fun keyword readKeyword leaf => ?_
  refine .bind (.take? (by decide)) fun named readNamed optional => ?_
  refine .bind (braced_reads parses .namespaceBody (.inl rfl)) fun body readBody braced => .pure ?_
  have parts : Each Shaped [keyword, named.getD Tree.nil, body]
      (readKeyword ++ (readNamed ++ (readBody ++ []))) :=
    .cons leaf.shaped (.cons (optional_shaped optional) (.cons braced.toShaped .nil))
  exact parts.item_encodedList braced.isA

theorem linkageDeclaration_reads (parses : Parses g) (region : Place) :
    Reads (fun tokens => kindOf tokens ≠ .endOfFile ∧ kindOf (tokens.drop 1) ≠ .endOfFile)
      (linkageDeclaration g region) Item := by
  refine .takeThen (fun _ => True) notAtEnd (fun tokens begins => ⟨trivial, begins⟩)
    fun keyword readKeyword leaf => ?_
  refine .bind .takeAny fun language readLanguage leafLanguage => ?_
  have rest : ∀ body readBody, Shaped body readBody →
      Reads anywhere (pure (Tree.list .linkageSpec [keyword, language, body]))
        fun tree readBehind =>
          Item tree (readKeyword ++ (readLanguage ++ (readBody ++ readBehind))) := by
    intro body readBody shaped
    have parts : Each Shaped [keyword, language, body]
        (readKeyword ++ (readLanguage ++ (readBody ++ []))) :=
      .cons leaf.shaped (.cons leafLanguage.shaped (.cons shaped .nil))
    exact .pure (parts.item_encodedList fun hides => absurd hides (by decide))
  refine .sees ?_ ?_
  · exact .bind (braced_reads parses _ (.inl rfl)).ofAnywhere
      fun body readBody braced => rest body readBody braced.toShaped
  · exact .bind (parses.declaration region) fun body readBody item => rest body readBody item.toShaped

theorem accessDeclaration_reads : Reads notAtEnd accessDeclaration Item := by
  refine .bind .takeAny fun access readAccess leaf => ?_
  refine .bind (.expect (by decide)) fun colon readColon leafColon => .pure ?_
  have parts : Each Shaped [access, colon] (readAccess ++ (readColon ++ [])) :=
    .cons leaf.shaped (.cons leafColon.shaped .nil)
  exact parts.item_encodedList fun hides => absurd hides (by decide)

theorem declaration_reads (parses : Parses g) (region : Place) :
    Reads anywhere (declaration g region) Item := by
  refine .nested (.kind fun found => ?_)
  split
  · exact (namespaceDeclaration_reads parses).ofSeen (by decide)
  · exact (usingForm_reads parses).ofSeen (by decide)
  · exact (templateDeclaration_reads parses region).ofSeen (by decide)
  · exact (typedefDeclaration_reads parses).ofSeen (by decide)
  · refine .bind (.takeSeen (by decide)) fun semicolon readSemicolon leaf => .pure ?_
    have parts : Each Shaped [Tree.nil, Tree.nil, Tree.nil, semicolon]
        ([] ++ ([] ++ ([] ++ (readSemicolon ++ [])))) :=
      .cons simple_nil.toShaped (.cons simple_nil.toShaped (.cons simple_nil.toShaped
        (.cons leaf.shaped .nil)))
    exact parts.item_encodedList fitsDeclaration_none
  · refine .kindBehind fun foundBehind => ?_
    split
    · next linkage =>
      have both := Bool.and_eq_true_iff.mp linkage
      refine (linkageDeclaration_reads parses region).restrict fun tokens begins => ⟨?_, ?_⟩
      · exact notAtEnd_of_kindOf (begins.1.2.trans (eq_of_beq both.1)) (by decide)
      · exact notAtEnd_of_kindOf (begins.2.trans (eq_of_beq both.2)) (by decide)
    · split
      · next access =>
        refine accessDeclaration_reads.restrict fun tokens begins => ?_
        refine notAtEnd_of_kindOf begins.1.2 fun same => ?_
        rw [same] at access
        cases access
      · exact (simpleDeclaration_reads parses region).ofAnywhere

end Grammar
end CppNames
