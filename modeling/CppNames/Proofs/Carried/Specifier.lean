import CppNames.Proofs.Carried.Declarator
import CppNames.Proofs.Grammar.Specifier

namespace CppNames
namespace Grammar

/-!
# What specifiers and types carry

The words in front of a declarator spell builtin types, the name of a type, or a class or an
enumeration, which carries a name itself.  None of these is a function type.  A parameter and a
type that names nothing carry the type that their declarator makes.
-/

open Encoding (IsComponent ComposedOf)
open CppNames.Tree (AllTold AllNamedBy)

variable {g : Productions} {place : Where} {good : Encoding → Prop}
  {trees : List Tree.Plain} {tree : Tree.Plain} {read : List Token}

/-! ## Declaration lists -/

theorem declarationList_told (tells : Tells good g) (region : Place) :
    Reads place (declarationList g region) fun trees _ => AllTold good trees := by
  refine .repeatFromNothing (fun trees _ => AllTold good trees) .nil
    fun declarations read told => ?_
  have unchanged : ∀ {turn : List Tree.Plain → Turn (List Tree.Plain)},
      turn = .again ∨ turn = .done → Reads anywhere (pure (turn declarations)) (Reads.Turns
        (fun trees _ => AllTold good trees) (fun trees _ => AllTold good trees) read) := by
    rintro turn (rfl | rfl)
    · exact .pure told
    · exact .pure told
  refine .kind fun found => ?_
  split
  · exact (unchanged (.inr rfl)).ofAnywhere
  · split
    · exact .reportThenPass (unchanged (.inl rfl))
    · exact (unchanged (.inr rfl)).ofAnywhere
  · exact .bind (Reads.recovering (tells.declaration region)).ofAnywhere
      fun more readMore each => .pure (told.append each.allTold)

theorem braced_told (tells : Tells good g) {construct : Construct} (region : Place)
    (other : construct ≠ .name ∧ construct ≠ .declarator) :
    Reads anywhere (braced g construct region) fun tree _ => tree.Told good := by
  refine .bind (.expect (by decide)) fun opening readOpening leafOpening => ?_
  refine .bind (declarationList_told tells region) fun declarations read told => ?_
  refine .bind (.expect (by decide)) fun closing readClosing leafClosing => .pure ?_
  exact AllTold.told_list
    (.cons leafOpening.told (.cons told.told_seq (.single leafClosing.told))) other

/-! ## Classes and enumerations -/

theorem baseClause_told (tells : Tells good g) :
    Reads notAtEnd (baseClause g) fun tree _ => tree.Told good := by
  refine .bind .takeAny fun colon readColon leaf => ?_
  have item : Reads anywhere (do
      let specifiers ← takeRun isBaseSpecifier
      let base ← name g true
      return [Tree.seq (specifiers ++ [base.tree])])
      (Each fun tree _ => tree.Told good) := by
    refine .bind (.takeRun rfl) fun specifiers readSpecifiers leaves => ?_
    refine .bind (name_told tells true) fun base readBase isName => .pure (.single ?_)
    exact (AllTold.append leaves.leavesTold (.single isName.told)).told_seq
  refine .bind (.commaSeparated item fun tree read leaf => leaf.told)
    fun bases read each => .pure ?_
  exact (AllTold.cons leaf.told each.allTold).told_seq

theorem anonymousName_told :
    Reads place anonymousName fun encoding _ => IsComponent encoding :=
  .behindSilent (.edit (fun _ => rfl) fun _ => rfl) fun _ =>
    .ask (fun _ => rfl) fun _ => .pure (.simpleName _)

theorem className_told (tells : Tells good g) (headed : Bool) :
    Reads anywhere (className g headed) fun named _ => IsPlain good ⟨named.1, named.2⟩ := by
  refine .kind fun found => ?_
  split
  · refine .bind (name_told tells true).ofAnywhere fun named read isName => ?_
    have answered : Reads anywhere (pure (named.tree, named.encoding))
        fun result _ => IsPlain good ⟨result.1, result.2⟩ :=
      .pure ⟨isName.toAttached, isName.isFunction⟩
    cases lastIdentifier? named.tree with
    | none => exact answered
    | some text =>
      refine .behindSilent (.learnType text) fun _ => ?_
      cases headed with
      | false => exact answered
      | true => exact .behindSilent (.learnTemplate text) fun _ => answered
  · exact .bind anonymousName_told fun encoding _ component =>
      .pure ⟨⟨Tree.told_nil, fun _ => .component component⟩, component.isFunction_eq⟩

/-- A class or an enumeration carries the name that its parts have. -/
theorem isPlain_named {construct : Construct} {encoding : Encoding} (told : AllTold good trees)
    (other : construct ≠ .name ∧ construct ≠ .declarator)
    (composed : AllNamedBy good trees → ComposedOf good encoding)
    (isFunction : encoding.isFunction = false) :
    IsPlain good ⟨Tree.encodedList construct (some encoding) none trees, encoding⟩ :=
  ⟨⟨told.told_named other composed, fun named => composed (Tree.namedBy_encodedList named)⟩,
    isFunction⟩

theorem classSpecifier_told (tells : Tells good g) {kind : Token.Kind} (more : kind ≠ .endOfFile) :
    Reads (inFrontOf kind) (classSpecifier g) fun specified _ => IsPlain good specified := by
  refine .bind (.takeOf more) fun keyword readKeyword leaf => ?_
  refine .behindSilent takeHeader_reads fun headed => ?_
  refine .bind (className_told tells headed) fun named readNamed plain => ?_
  refine .seesBind ((baseClause_told tells).ofSeen (by decide)) (.pure Tree.told_nil)
    fun bases readBases toldBases => ?_
  refine .seesBind (braced_told tells .classBody (by decide)).ofAnywhere (.pure Tree.told_nil)
    fun body readBody toldBody => .pure ?_
  exact isPlain_named (.cons leaf.told (.cons plain.told (.cons toldBases (.single toldBody))))
    (by decide) (fun all => plain.composed (all _ (by simp))) plain.isFunction

/-! ## Enumerations -/

theorem enumerator_told (tells : Tells good g) :
    Reads anywhere (enumerator g) fun tree _ => tree.Told good := by
  refine .bind (.expect (by decide)) fun identifier readIdentifier leaf => ?_
  refine .optional (by decide) (fun equals readEquals leafEquals => ?_) (.pure leaf.told)
  refine .bind tells.expressions.conditionalExpression_reads fun value readValue item => .pure ?_
  exact AllTold.told_seq (.cons leaf.told (.cons leafEquals.told (.single item.told)))

theorem enumerators_told (tells : Tells good g) :
    Reads place (enumerators g) fun trees _ => AllTold good trees := by
  refine .repeatFromNothing (fun trees _ => AllTold good trees) .nil fun items read told => ?_
  refine .sees (.pure told) ?_
  refine .bind (enumerator_told tells) fun item readItem toldItem => ?_
  refine .optional (by decide) (fun comma readComma leaf => .pure ?_) (.pure ?_)
  · exact told.append (.cons toldItem (.single leaf.told))
  · exact told.append (.single toldItem)

theorem enumBody_told (tells : Tells good g) :
    Reads anywhere (enumBody g) fun tree _ => tree.Told good := by
  refine .optional (by decide) (fun opening readOpening leafOpening => ?_) (.pure Tree.told_nil)
  refine .bind (enumerators_told tells) fun items read told => ?_
  refine .bind (.expect (by decide)) fun closing readClosing leafClosing => .pure ?_
  exact AllTold.told_list (.cons leafOpening.told (.cons told.told_seq (.single leafClosing.told)))
    (by decide)

theorem typeNameEncoding_told (named : Option Tree.Plain) :
    Reads place (typeNameEncoding named) fun encoding _ => IsComponent encoding := by
  cases named with
  | none => exact anonymousName_told
  | some identifier => exact .behindSilent (.learnType _) fun _ => .pure (.simpleName _)

/-- A token that may be missing, as an element. -/
theorem told_optional {test : Token.Kind → Prop} {named : Option Tree.Plain}
    (holds : Reads.Optional test named read) : (named.getD .nil).Told good := by
  cases named with
  | none => exact Tree.told_nil
  | some tree => exact IsLeaf.told holds

theorem enumSpecifier_told (tells : Tells good g) :
    Reads (inFrontOf .kwEnum) (enumSpecifier g) fun specified _ => IsPlain good specified := by
  refine .bind (.takeOf (by decide)) fun keyword readKeyword leaf => ?_
  refine .bind (.take? (by decide)) fun named readNamed optional => ?_
  refine .bind (typeNameEncoding_told named) fun encoding readEncoding component => ?_
  refine .bind (enumBody_told tells) fun body readBody told => .pure ?_
  exact isPlain_named (.cons leaf.told (.cons (told_optional optional) (.single told))) (by decide)
    (fun _ => .component component) component.isFunction_eq

/-! ## Specifiers -/

/-- What the loop over specifiers has read. -/
structure IsWords (good : Encoding → Prop) (read : SpecifierWords) : Prop where
  storage : AllTold good read.storage
  words : AllTold good read.words
  named : ∀ encoding ∈ read.named, encoding.isFunction = false ∧
    (AllNamedBy good read.words → ComposedOf good encoding)

theorem IsWords.addWord {read : SpecifierWords} (isWords : IsWords good read)
    (told : tree.Told good) : IsWords good (read.withWord tree) where
  storage := isWords.storage
  words := isWords.words.append (.single told)
  named encoding same := ⟨(isWords.named encoding same).1, fun all =>
    (isWords.named encoding same).2 (List.forall_mem_append.mp all).1⟩

theorem IsWords.addNamed {read : SpecifierWords} {type : Encoded} (isWords : IsWords good read)
    (plain : IsPlain good type) : IsWords good (read.withNamed type) where
  storage := isWords.storage
  words := isWords.words.append (.single plain.told)
  named encoding same := by
    rw [← Option.some.inj same]
    refine ⟨plain.isFunction, fun all => plain.composed ?_⟩
    exact List.forall_mem_singleton.mp (List.forall_mem_append.mp all).2

theorem specifier_told (tells : Tells good g) (region : Place) {read : SpecifierWords}
    (isWords : IsWords good read) :
    Reads anywhere (specifier g region read)
      (Reads.Turns (fun read _ => IsWords good read) (fun read _ => IsWords good read) []) := by
  have ended : Reads anywhere (pure (Turn.done read))
      (Reads.Turns (fun read _ => IsWords good read) (fun read _ => IsWords good read) []) :=
    .pure isWords
  have named : ∀ {start : Where} {production : Production Encoded},
      (Reads start production fun type _ => IsPlain good type) → Reads start (do
        return Turn.again (read.withNamed (← production)))
        (Reads.Turns (fun read _ => IsWords good read) (fun read _ => IsWords good read) []) :=
    fun reads => .bind reads fun type readType plain => .pure (isWords.addNamed plain)
  have names : Reads anywhere (name g true) fun type _ => IsPlain good type :=
    (name_told tells true).weaken fun _ _ isName => ⟨isName.toAttached, isName.isFunction⟩
  have constructorOrName : ∀ {start : Where}, Reads start (do
      if region.allowsConstructor && (← asks atSpecialMember) then return .done read
      else return .again (read.withNamed (← name g true)))
      (Reads.Turns (fun read _ => IsWords good read) (fun read _ => IsWords good read) []) := by
    intro start
    refine .asks fun special => ?_
    split
    · exact ended.ofAnywhere
    · exact (named names).ofAnywhere
  refine .kind fun next => ?_
  split
  · next storage =>
    have holds := (Bool.and_eq_true_iff.mp storage).1
    refine .bind (.takeSeen fun same => by rw [same] at holds; cases holds)
      fun tree readTree leaf => .pure ?_
    exact ⟨isWords.storage.append (.single leaf.told), isWords.words, isWords.named⟩
  · split
    · next qualifier =>
      refine .bind (.takeSeen fun same => by rw [same] at qualifier; cases qualifier)
        fun tree readTree leaf => .pure (isWords.addWord leaf.told)
    · split
      · next builtin =>
        have holds := (Bool.and_eq_true_iff.mp builtin).1
        refine .counting fun counted => ?_
        refine .bind (.takeSeen fun same => by rw [same] at holds; cases holds)
          fun tree readTree leaf => .pure ?_
        have added : IsWords good (read.withWord tree) := isWords.addWord leaf.told
        exact ⟨added.storage, added.words, added.named⟩
      · split
        · exact ended.ofAnywhere
        · split
          · exact named ((classSpecifier_told tells (by decide)).restrict fun _ begins => begins.2)
          · exact named ((classSpecifier_told tells (by decide)).restrict fun _ begins => begins.2)
          · exact named ((classSpecifier_told tells (by decide)).restrict fun _ begins => begins.2)
          · exact named ((enumSpecifier_told tells).restrict fun _ begins => begins.2)
          · refine .bind (.takeSeen (by decide)) fun keyword readKeyword leaf => ?_
            exact .bind names fun type readType plain =>
              .pure ((isWords.addWord leaf.told).addNamed plain)
          · exact constructorOrName
          · exact constructorOrName
          · exact ended.ofAnywhere

/-- What the specifiers of a declaration give. -/
structure IsSpecified (good : Encoding → Prop) (specified : Specifiers) : Prop where
  storage : specified.storage.Told good
  type : specified.type.Told good
  composed : specified.type.NamedBy good → ComposedOf good specified.encoding
  isFunction : specified.encoding.isFunction = false

theorem namedBy_grouped (named : (grouped trees).NamedBy good) : AllNamedBy good trees := by
  unfold grouped at named
  split at named
  · exact List.forall_mem_singleton.mpr named
  · exact Tree.namedBy_seq named

/-- The type of some words: a name that is known, or a builtin type. -/
theorem IsWords.bareType {read : SpecifierWords} (isWords : IsWords good read) :
    read.bareType.isFunction = false ∧
      (AllNamedBy good read.words → ComposedOf good read.bareType) := by
  unfold SpecifierWords.bareType
  cases named : read.named with
  | some encoding => exact isWords.named encoding named
  | none =>
    have isBuiltin : IsBuiltin (read.builtin.encoding?.getD
        (.builtin (if read.words.isEmpty then '?' else 'i'))) := by
      cases same : read.builtin.encoding? with
      | some encoding => exact isBuiltin_of_encoding? same
      | none =>
        refine .plain ?_
        split
        · decide
        · decide
    exact ⟨isBuiltin.isFunction_eq, fun _ => isBuiltin.composed⟩

/-- What holds of a type and is kept by `const` and `volatile` holds of the qualified type. -/
theorem encoding_of_bareType (property : Encoding → Prop) {read : SpecifierWords}
    (bare : property read.bareType) (const : ∀ type, property type → property type.constOf)
    (volatile : ∀ type, property type → property type.volatileOf) : property read.encoding := by
  unfold SpecifierWords.encoding
  dsimp only
  split
  · apply const
    split
    · exact volatile _ bare
    · exact bare
  · split
    · exact volatile _ bare
    · exact bare

theorem IsWords.specified {read : SpecifierWords} (isWords : IsWords good read) :
    IsSpecified good ⟨Tree.seq read.storage, grouped read.words, read.encoding⟩ := by
  rcases isWords.bareType with ⟨plain, composed⟩
  refine ⟨isWords.storage.told_seq, told_grouped isWords.words, fun named => ?_, ?_⟩
  · exact encoding_of_bareType (ComposedOf good) (composed (namedBy_grouped named))
      (fun _ => ComposedOf.constOf) fun _ => ComposedOf.volatileOf
  · exact encoding_of_bareType (fun type => type.isFunction = false) plain
      (fun _ => Encoding.isFunction_constOf) fun type _ => isFunction_volatileOf type

theorem specifiers_told (tells : Tells good g) (region : Place) :
    Reads anywhere (specifiers g region) fun specified _ => IsSpecified good specified := by
  have start : IsWords good {} := ⟨.nil, .nil, fun encoding absent => by cases absent⟩
  have loop : Reads anywhere (repeatFrom {} (specifier g region)) fun read _ => IsWords good read :=
    .repeatFromNothing (fun read _ => IsWords good read) start
      fun read before isWords => specifier_told tells region isWords
  exact .bind loop fun read before isWords => .pure isWords.specified

/-! ## Types -/

theorem requiredType_told (tells : Tells good g) (region : Place) :
    Reads anywhere (requiredType g region) fun specified _ => IsSpecified good specified := by
  refine .bind (specifiers_told tells region) fun read before specified => ?_
  split
  · exact .fail
  · exact .pure specified

/-- A parameter or a type takes its encodings over from its declarator. -/
theorem Declares.told_carrying {given : Prop} {declared : Declared} {construct : Construct}
    {name : Option Encoding} (declares : Declares good given declared) (told : AllTold good trees)
    (condition : AllNamedBy good trees → given) (member : declared.tree ∈ trees)
    (other : construct ≠ .name ∧ construct ≠ .declarator)
    (named : name = none ∨ name = declared.tree.name?)
    (declarator : (Tree.encodedList construct name (some declared.type) trees).typeDeclarator =
      declared.tree) :
    (Tree.encodedList construct name (some declared.type) trees).Told good := by
  have tells : AllNamedBy good trees → Tree.Tells good declared.tree := fun all =>
    (declares.told (condition all)).self (all _ member) declares.isCell
  refine told.told_carrying other.1 (fun all encoding which => ?_)
    (fun all made same isFunction => ?_) fun same => absurd same other.2
  · rcases which with same | same
    · rcases named with none | taken
      · rw [none] at same
        cases same
      · exact (tells all).composed encoding (.inl (taken ▸ same))
    · exact (tells all).composed encoding (.inr (declares.typed.trans same))
  · rw [declarator, ← Tree.typeDeclarator_of_isA declares.isA]
    exact (tells all).declares made (declares.typed.trans same) isFunction

theorem parameterDeclaration_told (tells : Tells good g) :
    Reads anywhere (parameterDeclaration g) fun parameter _ => IsParameter good parameter := by
  refine .bind (requiredType_told tells .parameter) fun read before specified => ?_
  refine .bind (declarator_told tells specified.composed specified.isFunction .parameter)
    fun declared readDeclared declares => .pure ?_
  have parts : AllTold good [read.storage, read.type, declared.tree] :=
    .cons specified.storage (.given specified.type fun named => .single (declares.told named))
  have told : (Tree.encodedList .parameterDeclaration declared.tree.name? (some declared.type)
      [read.storage, read.type, declared.tree]).Told good :=
    declares.told_carrying parts (fun all => all _ (by simp)) (by simp) (by decide) (.inr rfl) rfl
  refine ⟨⟨told, fun named => ?_⟩, rfl, rfl⟩
  exact (told.self named rfl).composed _ (.inr rfl)

theorem typeId_told (tells : Tells good g) :
    Reads anywhere (typeId g) fun type _ => type.tree.Told good ∧ type.tree.isLeaf = false := by
  refine .bind (requiredType_told tells .typeId) fun read before specified => ?_
  refine .kind fun found => ?_
  split
  · refine .bind
      (declarator_told tells specified.composed specified.isFunction .abstract).ofAnywhere
      fun declared readDeclared declares => .pure ⟨?_, rfl⟩
    have parts : AllTold good [read.type, declared.tree] :=
      .given specified.type fun named => .single (declares.told named)
    exact declares.told_carrying parts (fun all => all _ (by simp)) (by simp) (by decide)
      (.inl rfl) rfl
  · refine .pure ⟨?_, rfl⟩
    have parts : AllTold good [read.type, Tree.nil] := .cons specified.type (.single Tree.told_nil)
    exact parts.told_typed (by decide) (fun all => specified.composed (all _ (by simp)))
      specified.isFunction

end Grammar
end CppNames
