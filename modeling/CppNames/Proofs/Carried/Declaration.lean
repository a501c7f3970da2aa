import CppNames.Proofs.Carried.Specifier
import CppNames.Proofs.Grammar.Parse

namespace CppNames
namespace Grammar

/-!
# What declarations and statements carry

Declarations and statements tell what their parts tell.  A declarator stands behind the
specifiers of its declaration, and where the names in these are good, so is the type in front of
it.
-/

open Encoding (ComposedOf)
open CppNames.Tree (AllTold)

variable {g : Productions} {place : Where} {good : Encoding → Prop}

/-! ## Simple declarations -/

theorem usingForm_told (tells : Tells good g) :
    Reads notAtEnd (usingForm g) fun tree _ => ToldItem good tree := by
  refine .bind .takeAny fun keyword readKeyword leaf => ?_
  refine .optional (by decide) (fun nominates readNominates leafNominates => ?_) ?_
  · refine .bind (name_told tells false) fun named readNamed isName => ?_
    refine .bind (.expect (by decide)) fun semicolon readSemicolon leafSemicolon => .pure ⟨?_, rfl⟩
    exact AllTold.told_named (.cons leaf.told (.cons leafNominates.told (.cons isName.told
      (.single leafSemicolon.told)))) (by decide) fun all => isName.composed (all _ (by simp))
  · refine .bind (.discard (.take? (by decide))) fun _ readLost _ => ?_
    refine .bind (name_told tells false) fun named readNamed isName => ?_
    refine .bind (.expect (by decide)) fun semicolon readSemicolon leafSemicolon => .pure ⟨?_, rfl⟩
    exact AllTold.told_named (.cons leaf.told (.cons isName.told (.single leafSemicolon.told)))
      (by decide) fun all => isName.composed (all _ (by simp))

theorem typedefDeclarators_told (tells : Tells good g) {given : Prop} {base : Encoding}
    (composed : given → ComposedOf good base) (plain : base.isFunction = false) :
    Reads place (typedefDeclarators g base) fun trees _ => given → AllTold good trees := by
  have list : Reads place (typedefDeclarators g base)
      (Each fun tree _ => given → tree.Told good) := by
    refine .commaSeparated ?_ fun tree read leaf _ => leaf.told
    refine .bind (declarator_told tells composed plain .named) fun declared read declares => ?_
    have answered : Reads anywhere (pure [declared.tree]) fun trees readBehind =>
        Each (fun tree _ => given → tree.Told good) trees (read ++ readBehind) :=
      .pure (append_nil_of (.single declares.told))
    cases declared.name with
    | none => exact answered
    | some text => exact .behindSilent (.learnType text) fun _ => answered
  exact list.weaken fun trees read each condition =>
    (each.imp fun _ _ told => told condition).allTold

theorem typedefDeclaration_told (tells : Tells good g) :
    Reads notAtEnd (typedefDeclaration g) fun tree _ => ToldItem good tree := by
  refine .bind .takeAny fun keyword readKeyword leaf => ?_
  refine .bind (specifiers_told tells .namespaceBody) fun read before specified => ?_
  refine .bind (typedefDeclarators_told tells specified.composed specified.isFunction)
    fun declarators readDeclarators told => ?_
  refine .bind (.expect (by decide)) fun semicolon readSemicolon leafSemicolon => .pure ⟨?_, rfl⟩
  exact AllTold.told_list (.cons leaf.told (.given specified.type fun named =>
    .cons (told named).told_seq (.single leafSemicolon.told))) (by decide)

/-! ## Blocks -/

theorem statements_told (tells : Tells good g) :
    Reads place (statements g) fun trees _ => AllTold good trees := by
  refine .repeatFromNothing (fun trees _ => AllTold good trees) .nil fun items read told =>
    .kind fun found => ?_
  split
  · exact .pure told
  · refine .bind (Reads.recovering tells.statement).ofAnywhere fun more readMore each => .pure ?_
    exact told.append (each.imp fun _ _ item => item.told).allTold

theorem block_told (tells : Tells good g) :
    Reads anywhere (block g) fun tree _ => ToldItem good tree := by
  refine .bind (.expect (by decide)) fun opening readOpening leafOpening => ?_
  refine .bind (.inBlock (statements_told tells)) fun items read told => ?_
  refine .bind (.expect (by decide)) fun closing readClosing leafClosing => .pure ⟨?_, rfl⟩
  exact AllTold.told_list (.cons leafOpening.told (.cons told.told_seq (.single leafClosing.told)))
    (by decide)

/-! ## Definitions and lists of declarators -/

theorem moreDeclarators_told (tells : Tells good g) {given : Prop} {base : Encoding}
    (composed : given → ComposedOf good base) (plain : base.isFunction = false)
    (form : DeclaratorForm) {first : Tree.Plain} (told : given → first.Told good) :
    Reads place (moreDeclarators g base form first) fun trees _ => given → AllTold good trees := by
  refine .repeatFromNothing (fun trees _ => given → AllTold good trees)
    (fun condition => .single (told condition)) fun trees read all => ?_
  refine .optional (by decide) (fun comma readComma leaf => ?_) (.pure all)
  refine .bind (declarator_told tells composed plain form) fun declared readDeclared declares =>
    .pure fun condition => ?_
  exact (all condition).append (.cons leaf.told (.single (declares.told condition)))

theorem simpleDeclaration_told (tells : Tells good g) (region : Place) :
    Reads anywhere (simpleDeclaration g region) fun tree _ => ToldItem good tree := by
  refine .bind (specifiers_told tells region) fun read before specified => ?_
  refine .optional (by decide) (fun semicolon readSemicolon leaf => ?_) ?_
  · dsimp only
    split
    · exact .fail
    · refine .pure ⟨?_, rfl⟩
      exact AllTold.told_list (.cons specified.storage (.cons specified.type
        (.cons Tree.told_nil (.single leaf.told)))) (by decide)
  · refine .bind (declarator_told tells specified.composed specified.isFunction _)
      fun first readFirst declares => ?_
    refine .kind fun found => ?_
    split
    · refine .bind tells.expressions.memberInitializers_reads.ofAnywhere
        fun members readMembers each => ?_
      refine .bind (block_told tells) fun body readBody item => .pure ⟨?_, rfl⟩
      have parts : AllTold good (read.storage :: read.type :: first.tree :: (members ++ [body])) :=
        .cons specified.storage (.given specified.type fun named =>
          .cons (declares.told named) (each.allTold.append (.single item.told)))
      exact parts.told_list (by decide)
    · refine .bind (moreDeclarators_told tells specified.composed specified.isFunction _
        declares.told) fun declarators readMore told => ?_
      refine .bind (.expect (by decide)) fun semicolon readSemicolon leaf => .pure ⟨?_, rfl⟩
      exact AllTold.told_list (.cons specified.storage (.given specified.type fun named =>
        .cons (told named).told_seq (.single leaf.told))) (by decide)

/-! ## Templates -/

theorem typeParameter_told (tells : Tells good g) :
    Reads notAtEnd (typeParameter g) fun tree _ => tree.Told good := by
  refine .bind .takeAny fun keyword readKeyword leaf => ?_
  refine .bind (.take? (by decide)) fun named readNamed optional => ?_
  refine .bind tells.expressions.typeParameterDefault_reads fun fallback readFallback each => ?_
  refine .bind (typeNameEncoding_told named) fun encoding readEncoding component => .pure ?_
  exact AllTold.told_named (.cons leaf.told (.cons (told_optional optional) each.allTold))
    (by decide) fun _ => .component component

theorem templateParameter_told (tells : Tells good g) :
    Reads anywhere (templateParameter g) fun tree _ => tree.Told good := by
  refine .kind fun found => .kindBehind fun foundBehind => ?_
  split
  · next keyword =>
    refine (typeParameter_told tells).restrict fun tokens begins => ?_
    refine notAtEnd_of_kindOf begins.1.2 fun same => ?_
    rw [same] at keyword
    cases keyword
  · exact .bind (Reads.inTemplate tells.parameter).ofAnywhere fun parameter read isParameter =>
      .pure isParameter.told

theorem templateParameters_told (tells : Tells good g) :
    Reads anywhere (templateParameters g) fun trees _ => AllTold good trees := by
  refine .behindSilent .splitShift fun _ => .sees (.pure .nil) ?_
  have item : Reads anywhere (do return [← templateParameter g])
      (Each fun tree _ => tree.Told good) :=
    .bind (templateParameter_told tells) fun tree read told => .pure (.single told)
  refine (Reads.commaSeparated item fun tree read leaf => leaf.told).ofAnywhere.weaken ?_
  exact fun trees read each => each.allTold

theorem templateDeclaration_told (tells : Tells good g) (region : Place) :
    Reads notAtEnd (templateDeclaration g region) fun tree _ => tree.Told good := by
  refine .bind .takeAny fun keyword readKeyword leaf => ?_
  refine .bind (.expect (by decide)) fun opening readOpening leafOpening => ?_
  refine .bind (templateParameters_told tells) fun parameters readParameters told => ?_
  refine .bind (.expect (by decide)) fun closing readClosing leafClosing => ?_
  refine .bind (.underTemplateHeader (tells.declaration region))
    fun declared readDeclared toldDeclared => ?_
  have answered : Reads anywhere (pure (Tree.list .templateDecl
      [keyword, opening, Tree.seq parameters, closing, declared])) fun tree _ => tree.Told good :=
    .pure (AllTold.told_list (.cons leaf.told (.cons leafOpening.told (.cons told.told_seq
      (.cons leafClosing.told (.single toldDeclared))))) (by decide))
  cases declaredFunction? declared with
  | none => exact answered
  | some text => exact .behindSilent (.learnTemplate text) fun _ => answered

/-! ## Declarations -/

theorem namespaceDeclaration_told (tells : Tells good g) :
    Reads notAtEnd (namespaceDeclaration g) fun tree _ => tree.Told good := by
  refine .bind .takeAny fun keyword readKeyword leaf => ?_
  refine .bind (.take? (by decide)) fun named readNamed optional => ?_
  refine .bind (braced_told tells .namespaceBody (by decide)) fun body readBody told => .pure ?_
  have parts : AllTold good [keyword, named.getD Tree.nil, body] :=
    .cons leaf.told (.cons (told_optional optional) (.single told))
  cases named with
  | none => exact parts.told_list (by decide)
  | some identifier =>
    exact parts.told_named (by decide) fun _ => .component (.simpleName identifier.text)

theorem linkageDeclaration_told (tells : Tells good g) (region : Place) :
    Reads (fun tokens => kindOf tokens ≠ .endOfFile ∧ kindOf (tokens.drop 1) ≠ .endOfFile)
      (linkageDeclaration g region) fun tree _ => tree.Told good := by
  refine .takeThen (fun _ => True) notAtEnd (fun tokens begins => ⟨trivial, begins⟩)
    fun keyword readKeyword leaf => ?_
  refine .bind .takeAny fun language readLanguage leafLanguage => ?_
  refine .seesBind (braced_told tells _ (by decide)).ofAnywhere (tells.declaration region)
    fun body readBody told => .pure ?_
  exact AllTold.told_list (.cons leaf.told (.cons leafLanguage.told (.single told))) (by decide)

theorem accessDeclaration_told :
    Reads notAtEnd accessDeclaration fun tree _ => tree.Told good := by
  refine .bind .takeAny fun access readAccess leaf => ?_
  refine .bind (.expect (by decide)) fun colon readColon leafColon => .pure ?_
  exact AllTold.told_list (.cons leaf.told (.single leafColon.told)) (by decide)

theorem declaration_told (tells : Tells good g) (region : Place) :
    Reads anywhere (declaration g region) fun tree _ => tree.Told good := by
  refine .nested (.kind fun found => ?_)
  split
  · exact (namespaceDeclaration_told tells).ofSeen (by decide)
  · exact ((usingForm_told tells).weaken fun _ _ item => item.told).ofSeen (by decide)
  · exact (templateDeclaration_told tells region).ofSeen (by decide)
  · exact ((typedefDeclaration_told tells).weaken fun _ _ item => item.told).ofSeen (by decide)
  · refine .bind (.takeSeen (by decide)) fun semicolon readSemicolon leaf => .pure ?_
    exact AllTold.told_list (.cons Tree.told_nil (.cons Tree.told_nil (.cons Tree.told_nil
      (.single leaf.told)))) (by decide)
  · refine .kindBehind fun foundBehind => ?_
    split
    · next linkage =>
      have both := Bool.and_eq_true_iff.mp linkage
      refine (linkageDeclaration_told tells region).restrict fun tokens begins => ⟨?_, ?_⟩
      · exact notAtEnd_of_kindOf (begins.1.2.trans (eq_of_beq both.1)) (by decide)
      · exact notAtEnd_of_kindOf (begins.2.trans (eq_of_beq both.2)) (by decide)
    · split
      · next access =>
        refine accessDeclaration_told.restrict fun tokens begins => ?_
        refine notAtEnd_of_kindOf begins.1.2 fun same => ?_
        rw [same] at access
        cases access
      · exact ((simpleDeclaration_told tells region).weaken fun _ _ item => item.told).ofAnywhere

/-! ## Statements -/

theorem Tells.statements (tells : Tells good g) :
    Statements (fun tree _ => tree.Told good) (fun tree _ => ToldItem good tree) g where
  inherited := inherited_told fun construct trees admitted => by
    refine ⟨fun same => ?_, fun same => ?_⟩
    · rw [same] at admitted
      rcases admitted with plain | both
      · revert plain
        decide
      · cases both.1
    · rw [same] at admitted
      rcases admitted with plain | both
      · revert plain
        decide
      · cases both.1
  expression := tells.expression
  statement := tells.statement
  block := block_told tells
  usingForm := usingForm_told tells
  typedefDeclaration := typedefDeclaration_told tells
  declaration := simpleDeclaration_told tells .block

/-! ## All productions -/

theorem tells_productions (level : Nat) : Tells good (productions level) := by
  induction level with
  | zero => exact tells_exhausted
  | succ level ih =>
    have expressions := ih.expressions
    have told : ∀ {place : Where} {production : Production Tree.Plain},
        Reads place production (fun tree _ => ToldItem good tree) →
        Reads place production fun tree _ => tree.Told good :=
      fun reads => reads.weaken fun _ _ item => item.told
    exact
      { typeId := typeId_told ih
        assignment := told expressions.assignmentExpression_reads
        expression := told expressions.commaExpression_reads
        cast := told expressions.castExpression_reads
        binary := fun minimum => told (expressions.binaryExpression_reads minimum)
        initializers := told expressions.initializerList_reads
        parameter := parameterDeclaration_told ih
        declaration := declaration_told ih
        statement := ih.statements.statement_reads }

theorem unit_told : Reads anywhere unit fun tree _ => tree.Told good := by
  refine .ask (fun _ => rfl) fun state => ?_
  exact .bind (declarationList_told (tells_productions _) .file) fun trees read told =>
    .pure told.told_seq

end Grammar
end CppNames
