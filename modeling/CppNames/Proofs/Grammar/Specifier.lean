import CppNames.Grammar.Specifier
import CppNames.Proofs.Grammar.Declarator

namespace CppNames
namespace Grammar

/-!
# What specifiers and types read

The specifiers of a declaration are read in one loop and kept in two lists.  What the loop
has read interleaves the two, and each turn adds at the end of one of them.  A class and an
enumeration have the shapes that binding asks of them.
-/

variable {g : Productions} {place : Where}

/-- A shaped tree whose first token is no storage class. -/
structure Word (tree : Tree.Plain) (read : List Token) : Prop extends Shaped tree read where
  starts : Starts read

theorem Name.word {tree : Tree.Plain} {read : List Token} (name : Name tree read) :
    Word tree read :=
  ⟨name.toShaped, name.starts⟩

theorem IsLeaf.word {test : Token.Kind → Prop} {tree : Tree.Plain} {read : List Token}
    (leaf : IsLeaf test tree read) (plain : ∀ kind, test kind → kind.isDeclSpecifier = false) :
    Word tree read :=
  ⟨leaf.shaped, leaf.starts plain⟩

theorem isDeclSpecifier_of_isCvQualifier {kind : Token.Kind} (holds : kind.isCvQualifier = true) :
    kind.isDeclSpecifier = false := by
  cases kind <;> first | rfl | cases holds

theorem isDeclSpecifier_of_isBuiltinType {kind : Token.Kind} (holds : kind.isBuiltinType = true) :
    kind.isDeclSpecifier = false := by
  cases kind <;> first | rfl | cases holds

/-! ## Interleaving -/

theorem interleaves_storage {storage mixed : List Token} {words : List Tree.Plain} {token : Token}
    (holds : token.kind.isDeclSpecifier = true) :
    Tree.Interleaves storage words mixed →
      Tree.Interleaves (storage ++ [token]) words (mixed ++ [token])
  | .nil => .storage holds .nil
  | .storage first rest => .storage first (interleaves_storage holds rest)
  | .word first spells rest => by
    rw [List.append_assoc]
    exact .word first spells (interleaves_storage holds rest)

theorem interleaves_word {storage mixed read : List Token} {words : List Tree.Plain}
    {word : Tree.Plain} (holds : Word word read) :
    Tree.Interleaves storage words mixed →
      Tree.Interleaves storage (words ++ [word]) (mixed ++ read)
  | .nil => by
    rcases holds.starts with ⟨first, rest, same, plain⟩
    have alone : Tree.Interleaves [] [word] (first :: rest ++ []) :=
      .word plain (same ▸ holds.spells) .nil
    rw [List.append_nil] at alone
    rw [same]
    exact alone
  | .storage first rest => .storage first (interleaves_word holds rest)
  | .word first spells rest => by
    rw [List.append_assoc]
    exact .word first spells (interleaves_word holds rest)

/-- What the specifiers read so far have given. -/
structure Mixes (storage words : List Tree.Plain) (read : List Token) : Prop where
  interleaves : Tree.Interleaves (storage.flatMap Tree.tokens) words read
  storage : ∀ tree ∈ storage, tree.Throughout Tree.Fits
  words : ∀ tree ∈ words, tree.Throughout Tree.Fits

theorem forall_mem_snoc {property : Tree.Plain → Prop} {trees : List Tree.Plain} {tree : Tree.Plain}
    (all : ∀ other ∈ trees, property other) (holds : property tree) :
    ∀ other ∈ trees ++ [tree], property other := by
  intro other member
  rcases List.mem_append.mp member with old | new
  · exact all other old
  · rw [List.mem_singleton.mp new]
    exact holds

theorem Mixes.addStorage {storage words : List Tree.Plain} {read readBehind : List Token}
    {tree : Tree.Plain} (mixes : Mixes storage words read)
    (leaf : IsLeaf (fun kind => kind.isDeclSpecifier = true) tree readBehind) :
    Mixes (storage ++ [tree]) words (read ++ readBehind) := by
  refine ⟨?_, forall_mem_snoc mixes.storage leaf.shaped.fits, mixes.words⟩
  rcases leaf with ⟨token, holds, rfl, rfl⟩
  rw [List.flatMap_append]
  exact interleaves_storage holds mixes.interleaves

theorem Mixes.addWord {storage words : List Tree.Plain} {read readBehind : List Token}
    {tree : Tree.Plain} (mixes : Mixes storage words read) (word : Word tree readBehind) :
    Mixes storage (words ++ [tree]) (read ++ readBehind) :=
  ⟨interleaves_word word mixes.interleaves, mixes.storage, forall_mem_snoc mixes.words word.fits⟩

/-! ## Declaration lists -/

/-- A list in braces. -/
structure Braced (construct : Construct) (tree : Tree.Plain) (read : List Token) : Prop
    extends Item tree read where
  isA : tree.isA construct = true

theorem declarationList_reads (parses : Parses g) (region : Place) :
    Reads place (declarationList g region) (Each Item) := by
  refine .repeatFromNothing (Each Item) .nil fun declarations read each => ?_
  have unchanged : ∀ {turn : List Tree.Plain → Turn (List Tree.Plain)},
      turn = .again ∨ turn = .done → Reads anywhere (pure (turn declarations))
        (Reads.Turns (Each Item) (Each Item) read) := by
    rintro turn (rfl | rfl)
    · exact .pure (by simpa [Reads.Turns] using each)
    · exact .pure (by simpa [Reads.Turns] using each)
  refine .kind fun found => ?_
  split
  · exact (unchanged (.inr rfl)).ofAnywhere
  · split
    · exact .reportThenPass (unchanged (.inl rfl))
    · exact (unchanged (.inr rfl)).ofAnywhere
  · refine .bind (Reads.recovering (parses.declaration region)).ofAnywhere
      fun more readMore eachMore => .pure ?_
    simpa [Reads.Turns] using each.append eachMore

theorem Each.items {trees : List Tree.Plain} {read : List Token} (each : Each Item trees read) :
    Each Shaped trees read :=
  each.imp fun _ _ item => item.toShaped

theorem braced_reads (parses : Parses g) {construct : Construct} (region : Place)
    (plain : construct = .brace ∨ construct = .classBody) :
    Reads anywhere (braced g construct region) (Braced construct) := by
  refine .bind (.expect (by decide)) fun opening readOpening leafOpening => ?_
  refine .bind (declarationList_reads parses region) fun declarations read each => ?_
  refine .bind (.expect (by decide)) fun closing readClosing leafClosing => .pure ?_
  have parts : Each Shaped [opening, Tree.seq declarations, closing]
      (readOpening ++ (read ++ (readClosing ++ []))) :=
    .cons leafOpening.shaped (.cons each.items.shaped_seq (.cons leafClosing.shaped .nil))
  rcases plain with rfl | rfl
  · exact ⟨parts.item_encodedList fun hides => absurd hides (by decide), rfl⟩
  · exact ⟨parts.item_encodedList fun hides => absurd hides (by decide), rfl⟩

/-! ## Classes and enumerations -/

theorem baseClause_reads (parses : Parses g) : Reads notAtEnd (baseClause g) Shaped := by
  refine .bind .takeAny fun colon readColon leaf => ?_
  have item : Reads anywhere (do
      let specifiers ← takeRun isBaseSpecifier
      let base ← name g true
      return [Tree.seq (specifiers ++ [base.tree])]) (Each Shaped) := by
    refine .bind (.takeRun rfl) fun specifiers readSpecifiers leaves => ?_
    refine .bind (name_reads parses true) fun base readBase named => .pure ?_
    have parts := leaves.leaves.shaped.append (.single named.toShaped)
    have single : Each Shaped [Tree.seq (specifiers ++ [base.tree])] _ := .single parts.shaped_seq
    simpa using single
  refine .bind (.commaSeparated item fun tree read leaf => leaf.shaped)
    fun bases read each => .pure ?_
  have parts : Each Shaped (colon :: bases) (readColon ++ (read ++ [])) := by
    rw [List.append_nil]
    exact .cons leaf.shaped each
  exact parts.shaped_seq

theorem className_reads (parses : Parses g) (headed : Bool) :
    Reads anywhere (className g headed) fun result => Shaped result.1 := by
  refine .kind fun found => ?_
  split
  · refine .bind (name_reads parses true).ofAnywhere fun named read holds => ?_
    have answered : Reads anywhere (pure (named.tree, named.encoding))
        fun result readBehind => Shaped result.1 (read ++ readBehind) := by
      refine .pure ?_
      rw [List.append_nil]
      exact holds.toShaped
    cases lastIdentifier? named.tree with
    | none => exact answered
    | some text =>
      refine .behindSilent (.learnType text) fun _ => ?_
      cases headed with
      | false => exact answered
      | true => exact .behindSilent (.learnTemplate text) fun _ => answered
  · exact .behindSilent .anonymousName fun _ => .pure simple_nil.toShaped

theorem takeHeader_reads : Reads place takeHeader fun _ read => read = [] :=
  .ask (fun _ => rfl) fun _ => .behindSilent (.edit (fun _ => rfl) fun _ => rfl) fun _ => .pure rfl

/-- The body that a class may have. -/
structure IsClassBody (tree : Tree.Plain) (read : List Token) : Prop extends Shaped tree read where
  which : tree.isNil = true ∨ tree.isA .classBody = true

theorem classSpecifier_reads (parses : Parses g) {kind : Token.Kind} (more : kind ≠ .endOfFile)
    (plain : kind.isDeclSpecifier = false) :
    Reads (inFrontOf kind) (classSpecifier g) fun specified => Word specified.tree := by
  refine .bind (.takeOf more) fun keyword readKeyword leaf => ?_
  have starts := leaf.starts fun other same => same ▸ plain
  refine .behindSilent takeHeader_reads fun headed => ?_
  refine .bind (className_reads parses headed) fun named readNamed namedShaped => ?_
  have withBases : ∀ bases readBases, Shaped bases readBases → Reads anywhere (do
      let body ← if ← sees .openBrace then braced g .classBody .classBody else pure Tree.nil
      return (⟨Tree.encodedList .classSpec (some named.2) none
        [keyword, named.1, bases, body], named.2⟩ : Encoded))
        fun specified readBehind => Word specified.tree
          (readKeyword ++ (readNamed ++ (readBases ++ readBehind))) := by
    intro bases readBases basesShaped
    have withBody : ∀ body readBody, IsClassBody body readBody →
        Reads anywhere (pure (⟨Tree.encodedList .classSpec (some named.2) none
          [keyword, named.1, bases, body], named.2⟩ : Encoded))
          fun specified readBehind => Word specified.tree
            (readKeyword ++ (readNamed ++ (readBases ++ (readBody ++ readBehind)))) := by
      intro body readBody holds
      refine .pure ⟨Each.shaped_encodedList (.cons leaf.shaped (.cons namedShaped
        (.cons basesShaped (.cons holds.toShaped .nil)))) ⟨holds.which, rfl⟩, starts.append _⟩
    refine .sees ?_ ?_
    · have body := (braced_reads parses .classBody (.inr rfl)).weaken fun tree read braced =>
        (⟨braced.toShaped, .inr braced.isA⟩ : IsClassBody tree read)
      exact .bind body.ofAnywhere withBody
    · exact .bind (.pure ⟨simple_nil.toShaped, .inl rfl⟩) withBody
  refine .sees ?_ ?_
  · exact .bind ((baseClause_reads parses).ofSeen (by decide)) withBases
  · exact .bind (.pure simple_nil.toShaped) withBases

/-- An enumerator: its name alone, or a list whose third element is its value. -/
structure IsEnumerator (tree : Tree.Plain) (read : List Token) : Prop extends Shaped tree read where
  value : tree.isA .cons = true → tree.third.Unscoped

theorem IsLeaf.enumerator {test : Token.Kind → Prop} {tree : Tree.Plain} {read : List Token}
    (leaf : IsLeaf test tree read) : IsEnumerator tree read := by
  refine ⟨leaf.shaped, fun list => ?_⟩
  rcases leaf with ⟨token, _, rfl, _⟩
  cases list

theorem enumerator_reads (parses : Parses g) : Reads anywhere (enumerator g) IsEnumerator := by
  refine .bind (.expect (by decide)) fun identifier readIdentifier leaf => ?_
  refine .optional (by decide) (fun equals readEquals leafEquals => ?_) (.pure ?_)
  · refine .bind parses.expressions.conditionalExpression_reads
      fun value readValue operand => .pure ?_
    refine ⟨Each.shaped_seq (.cons leaf.shaped (.cons leafEquals.shaped
      (.cons operand.toShaped .nil))), fun _ => operand.unscoped⟩
  · rw [List.append_nil]
    exact leaf.enumerator

theorem enumerators_reads (parses : Parses g) :
    Reads place (enumerators g) (Each IsEnumerator) := by
  refine .repeatFromNothing (Each IsEnumerator) .nil fun items read each => ?_
  refine .sees (.pure (by simpa [Reads.Turns] using each)) ?_
  refine .bind (enumerator_reads parses) fun item readItem holds => ?_
  have more := each.append (.single holds)
  refine .optional (by decide) (fun comma readComma leaf => .pure ?_) (.pure ?_)
  · simpa [Reads.Turns] using more.append (.single leaf.enumerator)
  · simpa [Reads.Turns] using more

/-- The body that an enumeration may have. -/
structure IsEnumBody (tree : Tree.Plain) (read : List Token) : Prop extends Shaped tree read where
  which : tree.isNil = true ∨ tree.isA .brace = true
  values : ∀ item ∈ tree.second.present, item.isA .cons = true → item.third.Unscoped

theorem Each.value {trees : List Tree.Plain} {read : List Token}
    (each : Each IsEnumerator trees read) :
    ∀ item ∈ trees, item.isA .cons = true → item.third.Unscoped := by
  induction each with
  | nil => exact fun item member => absurd member (List.not_mem_nil)
  | cons holds _ ih => exact List.forall_mem_cons.mpr ⟨holds.value, ih⟩

theorem enumBody_reads (parses : Parses g) : Reads anywhere (enumBody g) IsEnumBody := by
  refine .optional (by decide) (fun opening readOpening leafOpening => ?_)
    (.pure ⟨simple_nil.toShaped, .inl rfl, by simp [Tree.second, Tree.nth, Tree.present, Tree.elements,
      Tree.drop, Tree.dropped, Tree.tail, Tree.head]⟩)
  refine .bind (enumerators_reads parses) fun items read each => ?_
  refine .bind (.expect (by decide)) fun closing readClosing leafClosing => .pure ?_
  have itemsShaped := Each.shaped_seq (each.imp fun _ _ item => item.toShaped)
  refine ⟨Each.shaped_encodedList (.cons leafOpening.shaped (.cons itemsShaped
    (.cons leafClosing.shaped .nil))) fun hides => absurd hides (by decide), .inr rfl, ?_⟩
  intro item member
  have inside := (Tree.mem_present member).1
  change item ∈ (Tree.seq items).elements at inside
  rw [Tree.elements_seq] at inside
  exact each.value item inside

theorem typeNameEncoding_reads (named : Option Tree.Plain) :
    Reads place (typeNameEncoding named) fun _ read => read = [] := by
  cases named with
  | none => exact .anonymousName
  | some identifier => exact .behindSilent (.learnType _) fun _ => .pure rfl

/-- A name that may be missing, as an element. -/
theorem optional_shaped {test : Token.Kind → Prop} {named : Option Tree.Plain} {read : List Token}
    (holds : Reads.Optional test named read) : Shaped (named.getD .nil) read := by
  cases named with
  | none => cases holds; exact simple_nil.toShaped
  | some tree => exact IsLeaf.shaped holds

theorem enumSpecifier_reads (parses : Parses g) :
    Reads (inFrontOf .kwEnum) (enumSpecifier g) fun specified => Word specified.tree := by
  refine .bind (.takeOf (by decide)) fun keyword readKeyword leaf => ?_
  have starts := leaf.starts fun kind same => by rw [same]; rfl
  refine .bind (.take? (by decide)) fun named readNamed optional => ?_
  refine .behindSilent (typeNameEncoding_reads named) fun encoding => ?_
  refine .bind (enumBody_reads parses) fun body readBody holds => .pure ?_
  refine ⟨Each.shaped_encodedList (.cons leaf.shaped (.cons (optional_shaped optional)
    (.cons holds.toShaped .nil))) ⟨holds.which, rfl, holds.values⟩, starts.append _⟩

/-! ## Specifiers -/

/-- What the loop over specifiers keeps. -/
abbrev Keeps (read : SpecifierWords) (tokens : List Token) : Prop :=
  Mixes read.storage read.words tokens

theorem IsLeaf.imp {test weaker : Token.Kind → Prop} {tree : Tree.Plain} {read : List Token}
    (leaf : IsLeaf test tree read) (implies : ∀ kind, test kind → weaker kind) :
    IsLeaf weaker tree read := by
  rcases leaf with ⟨token, holds, same, alone⟩
  exact ⟨token, implies _ holds, same, alone⟩

theorem specifier_reads (parses : Parses g) (region : Place) {read : SpecifierWords}
    {before : List Token} (keeps : Keeps read before) :
    Reads anywhere (specifier g region read) (Reads.Turns Keeps Keeps before) := by
  have ended : Reads anywhere (pure (Turn.done read)) (Reads.Turns Keeps Keeps before) := by
    refine .pure ?_
    change Keeps read (before ++ [])
    rw [List.append_nil]
    exact keeps
  have goesOn : ∀ {next : SpecifierWords} {readNext : List Token}, Keeps next (before ++ readNext) →
      Reads anywhere (pure (Turn.again next)) fun turn readBehind =>
        Reads.Turns Keeps Keeps before turn (readNext ++ readBehind) := by
    intro next readNext keeps
    refine .pure ?_
    rw [List.append_nil]
    exact keeps
  have named : ∀ {start : Where} {production : Production Encoded},
      Reads start production (fun type => Word type.tree) → Reads start (do
        return Turn.again (read.withNamed (← production))) (Reads.Turns Keeps Keeps before) :=
    fun reads => .bind reads fun type readType word => goesOn (keeps.addWord word)
  have words : Reads anywhere (name g true) fun type => Word type.tree :=
    (name_reads parses true).weaken fun type read holds => holds.word
  have classes : ∀ {kind : Token.Kind}, kind ≠ .endOfFile → kind.isDeclSpecifier = false →
      Reads (fun tokens => anywhere tokens ∧ kindOf tokens = kind)
        (do return Turn.again (read.withNamed (← classSpecifier g)))
        (Reads.Turns Keeps Keeps before) :=
    fun more plain => named ((classSpecifier_reads parses more plain).restrict fun _ begins => begins.2)
  have constructorOrName : ∀ {start : Where}, Reads start (do
      if region.allowsConstructor && (← asks atSpecialMember) then return .done read
      else return .again (read.withNamed (← name g true))) (Reads.Turns Keeps Keeps before) := by
    intro start
    refine .asks fun special => ?_
    split
    · exact ended.ofAnywhere
    · exact (named words).ofAnywhere
  refine .kind fun next => ?_
  split
  · next storage =>
    have holds := (Bool.and_eq_true_iff.mp storage).1
    refine .bind (.takeSeen fun same => by rw [same] at holds; cases holds)
      fun tree readTree leaf => goesOn ?_
    exact keeps.addStorage (leaf.imp fun kind same => same ▸ holds)
  · split
    · next qualifier =>
      refine .bind (.takeSeen fun same => by rw [same] at qualifier; cases qualifier)
        fun tree readTree leaf => goesOn ?_
      exact keeps.addWord
        (leaf.word fun kind same => isDeclSpecifier_of_isCvQualifier (same ▸ qualifier))
    · split
      · next builtin =>
        have holds := (Bool.and_eq_true_iff.mp builtin).1
        refine .counting fun counted => ?_
        refine .bind (.takeSeen fun same => by rw [same] at holds; cases holds)
          fun tree readTree leaf => goesOn ?_
        exact keeps.addWord
          (leaf.word fun kind same => isDeclSpecifier_of_isBuiltinType (same ▸ holds))
      · split
        · exact ended.ofAnywhere
        · split
          · exact classes (by decide) rfl
          · exact classes (by decide) rfl
          · exact classes (by decide) rfl
          · exact named ((enumSpecifier_reads parses).restrict fun _ begins => begins.2)
          · refine .bind (.takeSeen (by decide)) fun keyword readKeyword leaf => ?_
            refine .bind (name_reads parses true) fun type readType holds => ?_
            have word := leaf.word fun kind same => by rw [same]; rfl
            have both : Keeps ((read.withWord keyword).withNamed type)
                (before ++ (readKeyword ++ readType)) := by
              rw [← List.append_assoc]
              exact (keeps.addWord word).addWord holds.word
            refine (goesOn both).weaken fun turn readBehind turns => ?_
            rw [← List.append_assoc]
            exact turns
          · exact constructorOrName
          · exact constructorOrName
          · exact ended.ofAnywhere

/-- What the specifiers of a declaration give. -/
structure Specified (specified : Specifiers) (read : List Token) : Prop where
  mixes : ∃ words, specified.type = grouped words ∧
    Tree.Interleaves specified.storage.tokens words read
  storage : specified.storage.Throughout Tree.Fits
  type : specified.type.Throughout Tree.Fits

theorem throughout_grouped {trees : List Tree.Plain}
    (all : ∀ tree ∈ trees, tree.Throughout Tree.Fits) : (grouped trees).Throughout Tree.Fits := by
  unfold grouped
  split
  · next single => exact all single (List.mem_singleton_self _)
  · exact Tree.throughout_seq all

theorem specifiers_reads (parses : Parses g) (region : Place) :
    Reads anywhere (specifiers g region) Specified := by
  have start : Keeps {} [] := ⟨.nil, by simp, by simp⟩
  have loop : Reads anywhere (repeatFrom {} (specifier g region)) Keeps :=
    .repeatFromNothing Keeps start fun read before keeps => specifier_reads parses region keeps
  refine .bind loop fun read before keeps => .pure ?_
  rw [List.append_nil]
  refine ⟨⟨read.words, rfl, ?_⟩, Tree.throughout_seq keeps.storage, throughout_grouped keeps.words⟩
  rw [Tree.tokens_seq]
  exact keeps.interleaves

/-! ## Types -/

theorem requiredType_reads (parses : Parses g) (region : Place) :
    Reads anywhere (requiredType g region) Specified := by
  refine .bind (specifiers_reads parses region) fun read before specified => ?_
  split
  · exact .fail
  · refine .pure ?_
    rw [List.append_nil]
    exact specified

/-- A declaration or a parameter, whose storage classes may have been moved. -/
theorem Specified.spells {specified : Specifiers} {read readBehind : List Token}
    (holds : Specified specified read) {rest : List Tree.Plain} (each : Each Shaped rest readBehind)
    {construct : Construct} {name type : Option Encoding}
    (which : construct = .declaration ∨ construct = .parameterDeclaration) :
    (Tree.encodedList construct name type (specified.storage :: specified.type :: rest)).Spells
      (read ++ readBehind) := by
  rcases holds.mixes with ⟨words, same, interleaves⟩
  rw [same]
  exact .moved which interleaves each.spells_seq

theorem Specified.fits {specified : Specifiers} {read readBehind : List Token}
    (holds : Specified specified read) {rest : List Tree.Plain}
    (each : Each Shaped rest readBehind) :
    ∀ tree ∈ specified.storage :: specified.type :: rest, tree.Throughout Tree.Fits :=
  List.forall_mem_cons.mpr ⟨holds.storage, List.forall_mem_cons.mpr ⟨holds.type, each.fits⟩⟩

theorem parameterDeclaration_reads (parses : Parses g) :
    Reads anywhere (parameterDeclaration g) fun parameter => Simple parameter.tree := by
  refine .bind (requiredType_reads parses .parameter) fun read before specified => ?_
  refine .bind (declarator_reads parses read.encoding .parameter)
    fun declared readDeclared holds => .pure ?_
  rw [List.append_nil]
  have each : Each Shaped [declared.tree] readDeclared := .single holds.toShaped
  have unscoped : (Tree.encodedList .parameterDeclaration declared.tree.name? (some declared.type)
      [read.storage, read.type, declared.tree]).Unscoped := .parameter holds.unscoped
  exact ⟨⟨Tree.throughout_encodedList (specified.fits each) fun _ => unscoped,
    specified.spells each (.inr rfl)⟩, unscoped⟩

/-- A type that names nothing, whose storage classes are lost. -/
theorem Specified.simple_typeId {specified : Specifiers} {read readBehind : List Token}
    (holds : Specified specified read) {declarator : Tree.Plain} {type : Encoding}
    (shaped : Shaped declarator readBehind) :
    Simple (Tree.encodedList .typeId none (some type) [specified.type, declarator])
      (read ++ readBehind) := by
  rcases holds.mixes with ⟨words, same, interleaves⟩
  have each : Each Shaped [declarator] readBehind := .single shaped
  refine ⟨⟨Tree.throughout_encodedList (fun tree member => ?_) fun hides => absurd hides (by decide),
    ?_⟩, .closed rfl⟩
  · exact holds.fits each tree (List.mem_cons_of_mem _ member)
  · rw [same]
    exact .typeId interleaves each.spells_seq

theorem typeId_reads (parses : Parses g) :
    Reads anywhere (typeId g) fun type => Simple type.tree := by
  refine .bind (requiredType_reads parses .typeId) fun read before specified => ?_
  refine .kind fun found => ?_
  split
  · refine .bind (declarator_reads parses read.encoding .abstract).ofAnywhere
      fun declared readDeclared holds => .pure ?_
    rw [List.append_nil]
    exact specified.simple_typeId holds.toShaped
  · exact .pure (specified.simple_typeId simple_nil.toShaped)

end Grammar
end CppNames
