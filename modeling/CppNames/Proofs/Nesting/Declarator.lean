import CppNames.Grammar.Specifier
import CppNames.Proofs.Nesting.Expression

namespace CppNames
namespace Grammar

/-!
# How declarators, specifiers and types rise

A declarator holds the parameters of a function, the length of an array and an initializer.  Only
a braced initializer inside another is nested; the length is an expression of the same level.
Specifiers may hold a class or an enumeration with a body.  Its declarations are nested, so the
body itself is all that rises.

Parameters and types put a declarator and specifiers of the same level in one list, which counts
for itself.
-/

open CppNames.Tree (Rises AllRise IsToken allRise_nil rises_nil)

variable {g : Productions} {tally : Tally} {limit room : Nat}

/-! ## Declarators -/

theorem pointers_builds (tally : Tally) (base : Encoding) :
    Builds limit room (pointers base) fun result => AllRise tally limit room 0 result.1 := by
  refine .repeatFrom
    (fun result : List Tree.Plain × Encoding => AllRise tally limit room 0 result.1)
    allRise_nil fun result all => .kind fun found => ?_
  split
  · refine .bind .take fun star token => ?_
    have run : Builds limit room (takeRun Token.Kind.isCvQualifier)
        (AllRise tally limit room 0) := .takeRun
    exact .bind run fun qualifiers more => .pure (all.append (.cons token.rises more))
  · exact .bind .take fun amp token => .pure (all.append token.rises.single)
  · exact .pure all

theorem declaredName_builds (bounded : Bounded tally limit g) (form : DeclaratorForm) :
    Builds limit room (declaredName g form) fun named =>
      AllRise tally limit room (tally.links room + 3) (named.map (·.tree)).toList := by
  refine .kind fun found => ?_
  split
  · exact .bind (name_builds bounded false) fun named rises => .pure rises.single
  · split
    · exact .fail
    · exact .pure allRise_nil

theorem parameterItems_builds (bounded : Bounded tally limit g) :
    Builds limit room (parameterItems g) fun items =>
      AllRise tally limit room 0 items.elements := by
  refine .repeatFrom (fun items : ParameterItems => AllRise tally limit room 0 items.elements)
    allRise_nil fun items all => ?_
  refine .optional (fun dots token => .pure (all.append token.rises.single)) ?_
  refine .bind (bounded.parameter room) fun parameter rises => ?_
  have more := all.append rises.single
  refine .optional (fun comma token => .pure (more.append token.rises.single)) ?_
  exact .optional (fun dots token => .pure (more.append token.rises.single)) (.pure more)

theorem parameterClause_builds (bounded : Bounded tally limit g) :
    Builds limit room (parameterClause g) fun clause =>
      AllRise tally limit room 1 [clause.opening, clause.parameters, clause.closing] := by
  refine .bind .expect fun opening token => ?_
  have none : Builds limit room (pure (ParameterItems.mk [] [] false)) fun items =>
      AllRise tally limit room 0 items.elements := .pure allRise_nil
  refine .seesBind none (parameterItems_builds bounded) fun items all => ?_
  refine .bind .expect fun closing tokenClosing => .pure ?_
  exact .cons token.rises (.cons all.rises_seq tokenClosing.rises.single)

theorem thrownTypes_builds (bounded : Bounded tally limit g) :
    Builds limit room (thrownTypes g) (AllRise tally limit room 0) := by
  refine .repeatFrom (AllRise tally limit room 0) allRise_nil fun types all => .sees (.pure all) ?_
  refine .bind (bounded.typeId room) fun type rises => ?_
  refine .optional (fun comma token => .pure ?_) (.pure (all.append rises.single))
  exact all.append (.cons rises token.rises.single)

theorem exceptionSpecification_builds (bounded : Bounded tally limit g) :
    Builds limit room (exceptionSpecification g) (AllRise tally limit room 1) := by
  refine .optional (fun keyword token => ?_) (.pure allRise_nil)
  refine .bind .expect fun opening tokenOpening => ?_
  refine .bind (thrownTypes_builds bounded) fun types all => ?_
  refine .bind .expect fun closing tokenClosing => .pure ?_
  exact .cons token.rises (.cons tokenOpening.rises (.cons all.rises_seq tokenClosing.rises.single))

theorem functionSuffix_builds (bounded : Bounded tally limit g) :
    Builds limit room (functionSuffix g) fun result => AllRise tally limit room 1 result.1 := by
  refine .bind (parameterClause_builds bounded) fun clause all => ?_
  have run : Builds limit room (takeRun Token.Kind.isCvQualifier)
      (AllRise tally limit room 1) := .takeRun
  refine .bind run fun qualifiers more => ?_
  refine .bind (exceptionSpecification_builds bounded) fun exceptions thrown => .pure ?_
  exact (all.append more).append thrown

theorem arraySuffix_builds (bounded : Bounded tally limit g) :
    Builds limit room (arraySuffix g) fun result =>
      AllRise tally limit room (2 * tally.links room + 1) result.1 := by
  refine .bind .take fun opening token => ?_
  refine .seesBind (.pure rises_nil) (bounded.expression room) fun size rises => ?_
  refine .bind .expect fun closing tokenClosing => .pure ?_
  exact .cons token.rises (.cons rises tokenClosing.rises.single)

theorem initializerArguments_builds (bounded : Bounded tally limit g) :
    Builds limit room (initializerArguments g)
      (AllRise tally limit room (tally.links room + 2)) := by
  refine .bind .take fun opening token => ?_
  refine .bind (arguments_builds bounded) fun operands rises => ?_
  refine .bind .expect fun closing tokenClosing => .pure ?_
  exact .cons token.rises (.cons rises tokenClosing.rises.single)

theorem suffixes_builds (bounded : Bounded tally limit g) (form : DeclaratorForm) :
    Builds limit room (suffixes g form) fun behind =>
      AllRise tally limit room (2 * tally.links room + 3) behind.elements := by
  refine .repeatFrom
    (fun behind : Suffixes => AllRise tally limit room (2 * tally.links room + 3) behind.elements)
    allRise_nil fun behind all => .kind fun found => ?_
  split
  · refine .asks fun parameters => ?_
    split
    · refine .bind (initializerArguments_builds bounded) fun elements more => .pure ?_
      exact all.append (more.mono (by omega))
    · refine .bind (functionSuffix_builds bounded) fun result more => .pure ?_
      exact all.append (more.mono (by omega))
  · refine .bind (arraySuffix_builds bounded) fun result more => .pure ?_
    exact all.append (more.mono (by omega))
  · exact .pure all

/-! ## Initializers -/

theorem initializerItems_builds (bounded : Bounded tally limit g) :
    Builds limit room (initializerItems g) (AllRise tally limit room (tally.links room + 1)) := by
  refine .repeatFrom (AllRise tally limit room (tally.links room + 1)) allRise_nil
    fun items all => .sees (.pure all) ?_
  have inner : Builds limit room (nested g.initializers)
      (Rises tally limit room (tally.links room + 1)) := by
    have low : Builds limit room (nested g.initializers) (Rises tally limit room 0) :=
      .nestedRises (fun links => links + 3) (fun links le => by omega)
        fun less => bounded.initializers less
    exact low.higher (Nat.zero_le _)
  refine .seesBind inner (bounded.assignment room) fun item rises => ?_
  refine .optional (fun comma token => .pure ?_) (.pure (all.append rises.single))
  exact all.append (.cons rises token.rises.single)

theorem initializerList_builds (bounded : Bounded tally limit g) :
    Builds limit room (initializerList g) (Rises tally limit room (tally.links room + 3)) := by
  refine .bind .take fun opening token => ?_
  refine .bind (initializerItems_builds bounded) fun items all => ?_
  refine .bind .expect fun closing tokenClosing => .pure ?_
  exact AllRise.rises_list (.cons token.rises (.cons all.rises_seq tokenClosing.rises.single)) _

theorem bitField_builds (bounded : Bounded tally limit g) (form : DeclaratorForm)
    (isFunction : Bool) :
    Builds limit room (bitField g form isFunction)
      (AllRise tally limit room (tally.links room)) := by
  refine .sees ?_ ?_
  · split
    · refine .bind .take fun colon token => ?_
      exact .bind (conditionalExpression_builds bounded) fun width rises =>
        .pure (.cons token.rises rises.single)
    · exact .pure allRise_nil
  · simp only [Bool.and_false]
    exact .pure allRise_nil

theorem initializer_builds (bounded : Bounded tally limit g) (form : DeclaratorForm) :
    Builds limit room (initializer g form) (AllRise tally limit room (tally.links room + 3)) := by
  unfold initializer
  split
  · exact .pure allRise_nil
  · refine .optional (fun equals token => ?_) (.pure allRise_nil)
    have assigned : Builds limit room g.assignment
        (Rises tally limit room (tally.links room + 3)) :=
      (bounded.assignment room).higher (by omega)
    exact .seesBind (bounded.initializers room) assigned fun value rises =>
      .pure (.cons token.rises rises.single)

theorem declarator_builds (bounded : Bounded tally limit g) (base : Encoding)
    (form : DeclaratorForm) :
    Builds limit room (declarator g base form) fun declared =>
      declared.tree.Rises tally limit room (2 * tally.links room + 4) := by
  refine .bind (pointers_builds tally base) fun front all => ?_
  refine .bind (declaredName_builds bounded form) fun named allNamed => ?_
  refine .bind (suffixes_builds bounded form) fun behind allBehind => ?_
  have before : AllRise tally limit room (2 * tally.links room + 3)
      (front.1 ++ (named.map (·.tree)).toList ++ behind.elements) :=
    ((all.mono (Nat.zero_le _)).append (allNamed.mono (by omega))).append allBehind
  have none : Builds limit room (pure [])
      (AllRise tally limit room (2 * tally.links room + 3)) := .pure allRise_nil
  have width : Builds limit room (bitField g form (declaresFunction behind.suffixes))
      (AllRise tally limit room (2 * tally.links room + 3)) :=
    (bitField_builds bounded form _).weaken fun _ all => all.mono (by omega)
  have value : Builds limit room (initializer g form)
      (AllRise tally limit room (2 * tally.links room + 3)) :=
    (initializer_builds bounded form).weaken fun _ all => all.mono (by omega)
  have made (widthTrees valueTrees : List Tree.Plain)
      (allWidth : AllRise tally limit room (2 * tally.links room + 3) widthTrees)
      (allValue : AllRise tally limit room (2 * tally.links room + 3) valueTrees)
      (type : Encoding) :
      (Tree.encodedList .declarator (named.map (·.encoding)) (some type)
        (front.1 ++ (named.map (·.tree)).toList ++ behind.elements ++ widthTrees ++
          valueTrees)).Rises tally limit room (2 * tally.links room + 4) :=
    ((before.append allWidth).append allValue).rises_encodedList _ _ _
  refine .bindIf none width fun widthTrees allWidth => ?_
  exact .bindIf none value fun valueTrees allValue => .pure (made _ _ allWidth allValue _)

/-! ## Classes and enumerations -/

theorem declarationList_builds (bounded : Bounded tally limit g) (place : Place) :
    Builds limit room (declarationList g place) (AllRise tally limit room 0) := by
  refine .repeatFrom (AllRise tally limit room 0) allRise_nil
    fun declarations all => .kind fun found => ?_
  split
  · exact .pure all
  · split
    · have passed : Builds limit room (modify State.behindNext : Production PUnit)
          fun _ => True := .edit fun _ => ⟨⟨rfl, rfl, rfl⟩, rfl⟩
      exact .behind .report fun _ => .behind passed fun _ => .pure all
    · exact .pure all
  · exact .bind (.recovering (bounded.declaration room place)) fun more allMore =>
      .pure (all.append allMore)

theorem braced_builds (bounded : Bounded tally limit g) (construct : Construct) (place : Place) :
    Builds limit room (braced g construct place) (Rises tally limit room 2) := by
  refine .bind .expect fun opening token => ?_
  refine .bind (declarationList_builds bounded place) fun declarations all => ?_
  refine .bind .expect fun closing tokenClosing => .pure ?_
  exact AllRise.rises_list (.cons token.rises (.cons all.rises_seq tokenClosing.rises.single)) _

theorem baseClause_builds (bounded : Bounded tally limit g) :
    Builds limit room (baseClause g) (Rises tally limit room (tally.links room + 5)) := by
  refine .bind .take fun colon token => ?_
  have item : Builds limit room (do
      let specifiers ← takeRun isBaseSpecifier
      let base ← name g true
      return [Tree.seq (specifiers ++ [base.tree])])
        (AllRise tally limit room (tally.links room + 4)) := by
    have run : Builds limit room (takeRun isBaseSpecifier)
        (AllRise tally limit room (tally.links room + 3)) :=
      .takeRun
    refine .bind run fun specifiers all => ?_
    refine .bind (name_builds bounded true) fun base rises => .pure ?_
    exact (all.append rises.single).rises_seq.single
  exact .bind (.commaSeparated item) fun bases all =>
    .pure (AllRise.rises_seq (.cons token.rises all))

theorem className_builds (bounded : Bounded tally limit g) (headed : Bool) :
    Builds limit room (className g headed) fun result =>
      result.1.Rises tally limit room (tally.links room + 3) := by
  refine .kind fun found => ?_
  split
  · refine .bind (name_builds bounded true) fun named rises => ?_
    have answered : Builds limit room (pure (named.tree, named.encoding)) fun result =>
        result.1.Rises tally limit room (tally.links room + 3) := .pure rises
    cases lastIdentifier? named.tree with
    | none => exact answered
    | some text =>
      refine .behind (.learnType text) fun _ => ?_
      cases headed with
      | false => exact answered
      | true => exact .behind (.learnTemplate text) fun _ => answered
  · exact .behind .anonymousName fun _ => .pure rises_nil

theorem takeHeader_builds : Builds limit room takeHeader fun _ => True :=
  .ask (fun _ => rfl) fun _ => .behind (.edit fun _ => ⟨⟨rfl, rfl, rfl⟩, rfl⟩) fun _ =>
    .pure trivial

theorem classSpecifier_builds (bounded : Bounded tally limit g) :
    Builds limit room (classSpecifier g) fun specified =>
      specified.tree.Rises tally limit room (tally.links room + 6) := by
  refine .bind .take fun keyword token => .behind takeHeader_builds fun headed => ?_
  refine .bind (className_builds bounded headed) fun named risesNamed => ?_
  refine .seesBind (baseClause_builds bounded) (.pure rises_nil) fun bases risesBases => ?_
  have body : Builds limit room (braced g .classBody .classBody)
      (Rises tally limit room (tally.links room + 5)) :=
    (braced_builds bounded _ _).higher (by omega)
  refine .seesBind body (.pure rises_nil) fun body risesBody => .pure ?_
  exact AllRise.rises_encodedList (.cons token.rises (.cons (risesNamed.mono (by omega))
    (.cons risesBases risesBody.single))) _ _ _

theorem enumerator_builds (bounded : Bounded tally limit g) :
    Builds limit room (enumerator g) (Rises tally limit room (tally.links room + 1)) := by
  refine .bind .expect fun identifier token => ?_
  refine .optional (fun equals tokenEquals => ?_) (.pure token.rises)
  refine .bind (conditionalExpression_builds bounded) fun value rises => .pure ?_
  exact AllRise.rises_seq (.cons token.rises (.cons tokenEquals.rises rises.single))

theorem enumerators_builds (bounded : Bounded tally limit g) :
    Builds limit room (enumerators g) (AllRise tally limit room (tally.links room + 1)) := by
  refine .repeatFrom (AllRise tally limit room (tally.links room + 1)) allRise_nil
    fun items all => .sees (.pure all) ?_
  refine .bind (enumerator_builds bounded) fun item rises => ?_
  refine .optional (fun comma token => .pure ?_) (.pure (all.append rises.single))
  exact all.append (.cons rises token.rises.single)

theorem enumBody_builds (bounded : Bounded tally limit g) :
    Builds limit room (enumBody g) (Rises tally limit room (tally.links room + 3)) := by
  refine .optional (fun opening token => ?_) (.pure rises_nil)
  refine .bind (enumerators_builds bounded) fun items all => ?_
  refine .bind .expect fun closing tokenClosing => .pure ?_
  exact AllRise.rises_list (.cons token.rises (.cons all.rises_seq tokenClosing.rises.single)) _

theorem typeNameEncoding_builds (named : Option Tree.Plain) :
    Builds limit room (typeNameEncoding named) fun _ => True := by
  cases named with
  | none => exact .anonymousName
  | some identifier => exact .behind (.learnType _) fun _ => .pure trivial

/-- A token that may be missing, as an element. -/
theorem rises_optional {found : Option Tree.Plain} (tokens : ∀ tree ∈ found, IsToken tree)
    {height : Nat} : (found.getD .nil).Rises tally limit room height := by
  cases found with
  | none => exact rises_nil
  | some tree => exact (tokens tree rfl).rises

theorem enumSpecifier_builds (bounded : Bounded tally limit g) :
    Builds limit room (enumSpecifier g) fun specified =>
      specified.tree.Rises tally limit room (tally.links room + 4) := by
  refine .bind .take fun keyword token => .bind .take? fun named tokens => ?_
  refine .behind (typeNameEncoding_builds named) fun encoding => ?_
  refine .bind (enumBody_builds bounded) fun body rises => .pure ?_
  exact AllRise.rises_encodedList
    (.cons token.rises (.cons (rises_optional tokens) rises.single)) _ _ _

/-! ## Specifiers -/

/-- What the loop over specifiers keeps. -/
structure KeepsLow (tally : Tally) (limit room : Nat) (read : SpecifierWords) : Prop where
  storage : AllRise tally limit room 0 read.storage
  words : AllRise tally limit room (tally.links room + 6) read.words

theorem specifier_builds (bounded : Bounded tally limit g) (place : Place) {read : SpecifierWords}
    (keeps : KeepsLow tally limit room read) :
    Builds limit room (specifier g place read)
      (InTurn (KeepsLow tally limit room) (KeepsLow tally limit room)) := by
  have word {tree : Tree.Plain} (rises : tree.Rises tally limit room (tally.links room + 6)) :
      AllRise tally limit room (tally.links room + 6) (read.words ++ [tree]) :=
        keeps.words.append rises.single
  have named {production : Production Encoded} {height : Nat} (le : height ≤ tally.links room + 6)
      (builds : Builds limit room production fun type => type.tree.Rises tally limit room height) :
      Builds limit room (do return Turn.again (read.withNamed (← production)))
        (InTurn (KeepsLow tally limit room) (KeepsLow tally limit room)) :=
    .bind builds fun type rises => .pure ⟨keeps.storage, word (rises.mono le)⟩
  have constructorOrName : Builds limit room (do
      if place.allowsConstructor && (← asks atSpecialMember) then return .done read
      else return .again (read.withNamed (← name g true)))
      (InTurn (KeepsLow tally limit room) (KeepsLow tally limit room)) := by
    refine .asks fun special => ?_
    split
    · exact .pure keeps
    · exact named (by omega) (name_builds bounded true)
  refine .kind fun next => ?_
  split
  · exact .bind .take fun tree token =>
      .pure ⟨keeps.storage.append token.rises.single, keeps.words⟩
  · split
    · exact .bind .take fun tree token => .pure ⟨keeps.storage, word token.rises⟩
    · split
      · exact .counting fun builtin => .bind .take fun tree token =>
          .pure ⟨keeps.storage, word token.rises⟩
      · split
        · exact .pure keeps
        · split
          · exact named (by omega) (classSpecifier_builds bounded)
          · exact named (by omega) (classSpecifier_builds bounded)
          · exact named (by omega) (classSpecifier_builds bounded)
          · exact named (by omega) (enumSpecifier_builds bounded)
          · refine .bind .take fun keyword token => ?_
            refine .bind (name_builds bounded true) fun type rises => .pure ⟨keeps.storage, ?_⟩
            exact (word token.rises).append (rises.mono (by omega)).single
          · exact constructorOrName
          · exact constructorOrName
          · exact .pure keeps

/-- How the specifiers of a declaration rise. -/
structure SpecifiersLow (tally : Tally) (limit room : Nat) (read : Specifiers) : Prop where
  storage : read.storage.Rises tally limit room 1
  type : read.type.Rises tally limit room (tally.links room + 7)

theorem specifiers_builds (bounded : Bounded tally limit g) (place : Place) :
    Builds limit room (specifiers g place) (SpecifiersLow tally limit room) := by
  have loop : Builds limit room (repeatFrom {} (specifier g place)) (KeepsLow tally limit room) :=
    .repeatFrom (KeepsLow tally limit room) ⟨allRise_nil, allRise_nil⟩
      fun read keeps => specifier_builds bounded place keeps
  exact .bind loop fun read keeps => .pure ⟨keeps.storage.rises_seq, rises_grouped keeps.words⟩

/-! ## Types -/

theorem requiredType_builds (bounded : Bounded tally limit g) (place : Place) :
    Builds limit room (requiredType g place) (SpecifiersLow tally limit room) := by
  refine .bind (specifiers_builds bounded place) fun read low => ?_
  split
  · exact .fail
  · exact .pure low

/-- What a parameter or a type holds rises by less than a level may bring. -/
theorem held_lt (le : room ≤ limit) : 2 * tally.links room + 7 < 3 * tally.links limit + 8 := by
  have links := tally.links_mono le
  omega

theorem parameterDeclaration_builds (bounded : Bounded tally limit g) :
    Builds limit room (parameterDeclaration g) fun parameter =>
      parameter.tree.Rises tally limit room 0 := by
  refine .ofRoom fun le => .bind (requiredType_builds bounded .parameter) fun read low => ?_
  refine .bind (declarator_builds bounded read.encoding .parameter) fun declared rises => .pure ?_
  have parts : AllRise tally limit room (2 * tally.links room + 7)
      [read.storage, read.type, declared.tree] :=
    .cons (low.storage.mono (by omega)) (.cons (low.type.mono (by omega))
      (rises.mono (by omega)).single)
  exact parts.rises_counted (tally.counts_of_isUncounted rfl) _ _ (held_lt le)

theorem typeId_builds (bounded : Bounded tally limit g) :
    Builds limit room (typeId g) fun type => type.tree.Rises tally limit room 0 := by
  refine .ofRoom fun le => .bind (requiredType_builds bounded .typeId) fun read low => ?_
  have made {declarator : Tree.Plain} (type : Encoding)
      (rises : declarator.Rises tally limit room (2 * tally.links room + 4)) :
      (Tree.encodedList .typeId none (some type)
        [read.type, declarator]).Rises tally limit room 0 := by
    have parts : AllRise tally limit room (2 * tally.links room + 7) [read.type, declarator] :=
      .cons (low.type.mono (by omega)) (rises.mono (by omega)).single
    exact parts.rises_counted (tally.counts_of_isUncounted rfl) _ _ (held_lt le)
  refine .kind fun found => ?_
  split
  · exact .bind (declarator_builds bounded read.encoding .abstract) fun declared rises =>
      .pure (made declared.type rises)
  · exact .pure (made read.encoding rises_nil)

end Grammar
end CppNames
