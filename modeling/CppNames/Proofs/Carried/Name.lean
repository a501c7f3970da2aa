import CppNames.Grammar.Name
import CppNames.Proofs.Carried.Tree
import CppNames.Proofs.Grammar.Reading

namespace CppNames
namespace Grammar

/-!
# What names carry

A name is encoded as it is read: each turn of its loop adds the elements of one component to the
tree and one component to the encoding.  So the encoding of a name has one component for each
that its tree counts, whatever their number.  The arguments of a template-id are packed into
bytes that nothing looks into, and need not be known.

What a production answers does not depend on what was read for it here, so the statements leave
the tokens read out.
-/

open Encoding (IsComponent ComposedOf)
open CppNames.Tree (AllTold countsComponent componentsIn)

variable {g : Productions} {place : Where} {good : Encoding → Prop}
  {trees : List Tree.Plain} {tree : Tree.Plain} {read : List Token}

/-- A name or type whose tree tells what it should, and which is composed around the names in
its tree. -/
structure Attached (good : Encoding → Prop) (attached : Encoded) : Prop where
  told : attached.tree.Told good
  composed : attached.tree.NamedBy good → ComposedOf good attached.encoding

/-- A parameter, which carries its type. -/
structure IsParameter (good : Encoding → Prop) (parameter : Encoded) : Prop
    extends Attached good parameter where
  isA : parameter.tree.isA .parameterDeclaration = true
  typed : parameter.tree.type? = some parameter.encoding

/-- A tree that is there and tells what it should. -/
structure ToldItem (good : Encoding → Prop) (tree : Tree.Plain) : Prop where
  told : tree.Told good
  there : tree.isNil = false

/-- What is known of the productions through which the grammar is recursive. -/
structure Tells (good : Encoding → Prop) (g : Productions) : Prop where
  typeId : Reads anywhere g.typeId fun type _ => type.tree.Told good ∧ type.tree.isLeaf = false
  assignment : Reads anywhere g.assignment fun tree _ => tree.Told good
  expression : Reads anywhere g.expression fun tree _ => tree.Told good
  cast : Reads anywhere g.cast fun tree _ => tree.Told good
  binary : ∀ level, Reads anywhere (g.binary level) fun tree _ => tree.Told good
  initializers : Reads (inFrontOf .openBrace) g.initializers fun tree _ => tree.Told good
  parameter : Reads anywhere g.parameter fun parameter _ => IsParameter good parameter
  declaration : ∀ place, Reads anywhere (g.declaration place) fun tree _ => tree.Told good
  statement : Reads anywhere g.statement fun tree _ => ToldItem good tree

theorem tells_exhausted : Tells good .exhausted := by
  constructor
  all_goals
    intros
    exact Reads.throw (by simp)

/-! ## Tokens and lists -/

theorem IsLeaf.told {test : Token.Kind → Prop} (leaf : IsLeaf test tree read) : tree.Told good := by
  rcases leaf with ⟨token, _, rfl, _⟩
  exact Tree.told_ofToken token

theorem IsLeaf.isToken {test : Token.Kind → Prop} (leaf : IsLeaf test tree read) {kind : Token.Kind}
    (different : ∀ found, test found → found ≠ kind) : tree.isToken kind = false := by
  rcases leaf with ⟨token, holds, rfl, _⟩
  exact beq_eq_false_iff_ne.mpr fun same => different _ holds (Option.some.inj same)

theorem Each.allTold (each : Each (fun tree _ => tree.Told good) trees read) :
    AllTold good trees := by
  induction each with
  | nil => exact .nil
  | cons told _ ih => exact .cons told ih

theorem Each.leavesTold {test : Token.Kind → Prop} (each : Each (IsLeaf test) trees read) :
    AllTold good trees :=
  Each.allTold (each.imp fun _ _ leaf => leaf.told)

/-! ## Counting components -/

theorem countsComponent_of_isLeaf {test : Token.Kind → Prop} (leaf : IsLeaf test tree read)
    (different : ∀ kind, test kind → kind ≠ .identifier ∧ kind ≠ .kwOperator) :
    countsComponent tree = false := by
  unfold countsComponent
  rw [leaf.isToken fun kind holds => (different kind holds).1,
    leaf.isToken fun kind holds => (different kind holds).2]
  rfl

theorem countsComponent_of_isLeaf_eq {kind : Token.Kind} (leaf : IsLeaf (· = kind) tree read)
    (which : kind = .identifier ∨ kind = .kwOperator) : countsComponent tree = true := by
  rcases leaf with ⟨token, rfl, rfl, _⟩
  unfold countsComponent Tree.isToken Tree.kind? Tree.token? Tree.ofToken
  rcases which with same | same
  · simp [same]
  · simp [same]

theorem countsComponent_of_noLeaf (list : tree.isLeaf = false) : countsComponent tree = false := by
  cases tree with
  | leaf label token => cases list
  | nil | cell label construct name type head tail => rfl

theorem IsLeaf.leadsName {kind : Token.Kind} (leaf : IsLeaf (· = kind) tree read)
    (leads : kind ∈ [Token.Kind.identifier, .colonColon, .tilde, .kwOperator]) :
    tree.leadsName = true := by
  rcases leaf with ⟨token, rfl, rfl, _⟩
  exact List.any_eq_true.mpr ⟨token.kind, leads, beq_self_eq_true _⟩

theorem isLeaf_seq (trees : List Tree.Plain) : (Tree.seq trees).isLeaf = false := by
  cases trees <;> rfl

/-- One more component at the end of a name. -/
theorem componentsIn_append {elements component : List Tree.Plain}
    (one : component.countP countsComponent = 1)
    (starts : (component.headD .nil).isToken .colonColon = false) :
    componentsIn (elements ++ component) = componentsIn elements + 1 := by
  unfold componentsIn
  rw [List.countP_append, one]
  cases elements with
  | nil =>
    rw [List.nil_append, starts]
    rfl
  | cons first rest => rw [List.cons_append, List.headD_cons, List.headD_cons, ← Nat.add_assoc]

/-- What stands between components counts for none. -/
theorem componentsIn_append_none {elements separator : List Tree.Plain} (there : elements ≠ [])
    (none : separator.countP countsComponent = 0) :
    componentsIn (elements ++ separator) = componentsIn elements := by
  unfold componentsIn
  rw [List.countP_append, none]
  cases elements with
  | nil => exact absurd rfl there
  | cons first rest => rfl

/-! ## Template arguments -/

theorem templateArgument_told (tells : Tells good g) :
    Reads anywhere (templateArgument g) fun argument _ => argument.tree.Told good := by
  refine .asks fun isType => ?_
  split
  · exact tells.typeId.weaken fun _ _ told => told.1
  · exact .bind tells.assignment fun tree read told => .pure told

theorem templateArgumentList_told (tells : Tells good g) :
    Reads place (templateArgumentList g) fun parts _ => AllTold good parts.elements := by
  refine .behindSilent .splitShift fun _ => ?_
  refine .sees (.pure .nil) ?_
  refine .repeatFromNothing (fun parts _ => AllTold good parts.elements) .nil
    fun parts read told => ?_
  refine .bind (templateArgument_told tells) fun argument readArgument toldArgument => ?_
  have more : AllTold good (parts.elements ++ [argument.tree]) := told.append (.single toldArgument)
  refine .optional (by decide) (fun comma readComma leaf => .pure ?_) (.pure more)
  exact more.append (.single leaf.told)

/-- Elements that count for no component of a name. -/
structure Uncounted (good : Encoding → Prop) (elements : List Tree.Plain) : Prop where
  told : AllTold good elements
  none : elements.countP countsComponent = 0

theorem Uncounted.cons (told : tree.Told good) (none : countsComponent tree = false)
    (rest : Uncounted good trees) : Uncounted good (tree :: trees) where
  told := .cons told rest.told
  none := by rw [List.countP_cons_of_neg (by simp [none]), rest.none]

theorem Uncounted.nil : Uncounted good [] := ⟨.nil, rfl⟩

theorem Uncounted.token {kind : Token.Kind} (leaf : IsLeaf (· = kind) tree read)
    (different : kind ≠ .identifier ∧ kind ≠ .kwOperator) (rest : Uncounted good trees) :
    Uncounted good (tree :: trees) :=
  .cons leaf.told (countsComponent_of_isLeaf leaf fun _ same => same ▸ different) rest

theorem templateArguments_told (tells : Tells good g) :
    Reads (inFrontOf .less) (templateArguments g) fun parts _ => Uncounted good parts.elements := by
  refine .bind (.takeOf (by decide)) fun opening readOpening leaf => ?_
  refine .bind (.inTemplate (templateArgumentList_told tells)) fun arguments read told => ?_
  refine .bind (.expect (by decide)) fun closing readClosing leafClosing => .pure ?_
  exact .token leaf (by decide) (.cons told.told_seq (countsComponent_of_noLeaf (isLeaf_seq _))
    (.token leafClosing (by decide) .nil))

/-! ## Components -/

/-- A component counts for one, and a `::` in front of a name is none. -/
structure IsOne (good : Encoding → Prop) (component : NameComponent) : Prop where
  told : AllTold good component.elements
  isComponent : IsComponent component.encoding
  one : component.elements.countP countsComponent = 1
  starts : (component.elements.headD .nil).isToken .colonColon = false
  led : (component.elements.headD .nil).leadsName = true

/-- A component that is led by an identifier or by `operator`. -/
theorem isOne_cons {kind : Token.Kind} {encoding : Encoding} (leaf : IsLeaf (· = kind) tree read)
    (which : kind = .identifier ∨ kind = .kwOperator) (rest : Uncounted good trees)
    (component : IsComponent encoding) : IsOne good ⟨tree :: trees, encoding⟩ where
  told := .cons leaf.told rest.told
  isComponent := component
  one := by
    rw [List.countP_cons_of_pos (countsComponent_of_isLeaf_eq leaf which), rest.none]
  starts := by
    refine leaf.isToken ?_
    rintro _ rfl same
    rcases which with which | which
    · rw [which] at same; cases same
    · rw [which] at same; cases same
  led := leaf.leadsName (by rcases which with rfl | rfl <;> decide)

theorem identifierComponent_told (tells : Tells good g) (inType : Bool) :
    Reads (inFrontOf .identifier) (identifierComponent g inType) fun component _ =>
      IsOne good component := by
  refine .bind (.takeOf (by decide)) fun identifier read leaf => ?_
  have alone : ∀ text, IsOne good ⟨[identifier], .simpleName text⟩ :=
    fun text => isOne_cons leaf (.inl rfl) .nil (.simpleName text)
  refine .asks fun isTemplate => ?_
  refine .sees ?_ (.pure (alone _))
  simp only [Bool.true_and]
  split
  · refine .bind ((templateArguments_told tells).restrict fun tokens begins => begins.2)
      fun arguments readArguments uncounted => .pure ?_
    exact isOne_cons leaf (.inl rfl) uncounted (.templateId _ _)
  · exact .pure (alone _)

theorem destructorComponent_told :
    Reads (inFrontOf .tilde) destructorComponent fun component _ => IsOne good component := by
  refine .bind (.takeOf (by decide)) fun tilde read leaf => ?_
  refine .bind (.expect (by decide)) fun identifier readIdentifier leafIdentifier => .pure ?_
  refine ⟨.cons leaf.told (.single leafIdentifier.told), .simpleName _, ?_,
    leaf.isToken (by rintro _ rfl; decide), leaf.leadsName (by decide)⟩
  have none := countsComponent_of_isLeaf leaf (by rintro _ rfl; decide)
  rw [List.countP_cons_of_neg (by simp [none]),
    List.countP_cons_of_pos (countsComponent_of_isLeaf_eq leafIdentifier (.inl rfl)),
    List.countP_nil]

theorem bracketOperator_told {opening closing : Token.Kind} {shown : String}
    (more : opening ≠ .endOfFile ∧ closing ≠ .endOfFile)
    (different : opening ≠ .identifier ∧ opening ≠ .kwOperator)
    (differentClosing : closing ≠ .identifier ∧ closing ≠ .kwOperator) :
    Reads (inFrontOf opening) (bracketOperator closing shown) fun result _ =>
      Uncounted good result.1 := by
  refine .bind (.takeOf more.1) fun first readFirst leaf => ?_
  refine .bind (.expect more.2) fun second readSecond leafSecond => .pure ?_
  exact .token leaf different (.token leafSecond differentClosing .nil)

theorem allocationOperator_told {kind : Token.Kind} (which : kind = .kwNew ∨ kind = .kwDelete) :
    Reads (inFrontOf kind) allocationOperator fun result _ => Uncounted good result.1 := by
  have more : kind ≠ .endOfFile := by rcases which with rfl | rfl <;> decide
  refine .bind (.takeOf more) fun keyword readKeyword leaf => ?_
  have different : kind ≠ .identifier ∧ kind ≠ .kwOperator := by
    rcases which with rfl | rfl <;> decide
  have alone : Uncounted good [keyword] := .token leaf different .nil
  refine .sees (.kindBehind fun found => ?_) (.kindBehind fun found => .pure alone)
  simp only [Bool.true_and]
  split
  · next closes =>
    refine .takeThen (· = .openBracket) (inFrontOf .closeBracket)
      (fun tokens begins => ⟨begins.1.2, by rw [begins.1.2]; decide, ?_⟩)
      fun opening readOpening leafOpening => ?_
    · exact begins.2.trans (eq_of_beq closes)
    · refine .bind (.takeOf (by decide)) fun closing readClosing leafClosing => .pure ?_
      exact .token leaf different
        (.token leafOpening (by decide) (.token leafClosing (by decide) .nil))
  · exact .pure alone

theorem operatorSuffix_told (tells : Tells good g) :
    Reads anywhere (operatorSuffix g) fun result _ => Uncounted good result.1 := by
  refine .kind fun found => ?_
  split
  · exact (bracketOperator_told (by decide) (by decide) (by decide)).restrict
      fun _ begins => begins.2
  · exact (bracketOperator_told (by decide) (by decide) (by decide)).restrict
      fun _ begins => begins.2
  · exact (allocationOperator_told (.inl rfl)).restrict fun _ begins => begins.2
  · exact (allocationOperator_told (.inr rfl)).restrict fun _ begins => begins.2
  · split
    · next punctuation =>
      refine .bind (.takeSeen fun same => by rw [same] at punctuation; cases punctuation)
        fun operator read leaf => .pure ?_
      refine .cons leaf.told (countsComponent_of_isLeaf leaf ?_) .nil
      rintro _ rfl
      constructor
      · intro same
        rw [same] at punctuation
        cases punctuation
      · intro same
        rw [same] at punctuation
        cases punctuation
    · refine (Reads.bind tells.typeId fun type read told => ?_).ofAnywhere
      exact .reading fun shown => .pure (.cons told.1 (countsComponent_of_noLeaf told.2) .nil)

theorem operatorComponent_told (tells : Tells good g) :
    Reads (inFrontOf .kwOperator) (operatorComponent g) fun component _ =>
      IsOne good component := by
  refine .bind (.takeOf (by decide)) fun keyword read leaf => ?_
  refine .bind (operatorSuffix_told tells) fun suffix readSuffix uncounted => .pure ?_
  exact isOne_cons leaf (.inr rfl) uncounted (.simpleName _)

theorem nameComponent_told (tells : Tells good g) (inType : Bool) :
    Reads anywhere (nameComponent g inType) fun component _ => IsOne good component := by
  refine .kind fun found => ?_
  split
  · exact (identifierComponent_told tells inType).restrict fun tokens begins => begins.2
  · exact destructorComponent_told.restrict fun tokens begins => begins.2
  · exact (operatorComponent_told tells).restrict fun tokens begins => begins.2
  · exact .fail

/-! ## Names -/

/-- The parts of a name that were read: one component for each that the elements count. -/
structure Joins (good : Encoding → Prop) (parts : NameParts) : Prop where
  told : AllTold good parts.elements
  components : ∀ part ∈ parts.encodings, IsComponent part
  counted : parts.encodings.length = componentsIn parts.elements
  led : parts.elements ≠ [] → (parts.elements.headD .nil).leadsName = true

theorem Joins.append {parts : NameParts} {component : NameComponent} (joins : Joins good parts)
    (one : IsOne good component) :
    Joins good ⟨parts.elements ++ component.elements, parts.encodings ++ [component.encoding]⟩ where
  told := joins.told.append one.told
  components := by
    intro part member
    rcases List.mem_append.mp member with before | last
    · exact joins.components part before
    · rw [List.mem_singleton.mp last]
      exact one.isComponent
  counted := by
    rw [List.length_append, componentsIn_append one.one one.starts, ← joins.counted]
    rfl
  led _ := by
    cases elements : parts.elements with
    | nil => exact one.led
    | cons first rest =>
      have led := joins.led (by rw [elements]; exact List.cons_ne_nil _ _)
      rwa [elements] at led

/-- Tokens between components leave the components as they are. -/
theorem Joins.separated {parts : NameParts} {separator : List Tree.Plain} (joins : Joins good parts)
    (there : parts.elements ≠ []) (uncounted : Uncounted good separator) :
    Joins good ⟨parts.elements ++ separator, parts.encodings⟩ where
  told := joins.told.append uncounted.told
  components := joins.components
  counted := by rw [componentsIn_append_none there uncounted.none, ← joins.counted]
  led _ := by
    cases elements : parts.elements with
    | nil => exact absurd elements there
    | cons first rest =>
      have led := joins.led there
      rwa [elements] at led

/-- The parts of a whole name, which has a component. -/
structure JoinsSome (good : Encoding → Prop) (parts : NameParts) : Prop
    extends Joins good parts where
  there : parts.encodings ≠ []

theorem nameComponents_told (tells : Tells good g) (inType : Bool) {start : NameParts}
    (begins : Joins good start) :
    Reads place (nameComponents g inType start) fun parts _ => JoinsSome good parts := by
  refine .repeatFromNothing (fun parts _ => Joins good parts) begins fun parts read joins => ?_
  refine .bind (nameComponent_told tells inType) fun component readComponent one => ?_
  have whole := joins.append one
  have there : parts.elements ++ component.elements ≠ [] := by
    intro same
    have none := one.one
    rw [(List.append_eq_nil_iff.mp same).2] at none
    cases none
  have ended : JoinsSome good
      ⟨parts.elements ++ component.elements, parts.encodings ++ [component.encoding]⟩ :=
    ⟨whole, List.append_ne_nil_of_right_ne_nil _ (List.cons_ne_nil _ _)⟩
  refine .sees (.kindBehind fun found => ?_) (.kindBehind fun found => .pure ended)
  simp only [Bool.true_and]
  split
  · refine .bind (.take (· = .colonColon) fun tokens begins => ⟨begins.1.2, ?_⟩)
      fun colons readColons leaf => ?_
    · rw [begins.1.2]
      decide
    · refine .optional (by decide) (fun keyword readKeyword leafKeyword => .pure ?_) (.pure ?_)
      · have separated := whole.separated there
          (.token leaf (by decide) (.token leafKeyword (by decide) .nil))
        simpa [Reads.Turns] using separated
      · have separated := whole.separated there (.token leaf (by decide) .nil)
        simpa [Reads.Turns] using separated
  · exact .pure ended

/-- A name that was read.  It is no function type, and its tree neither opens parentheses nor
brackets. -/
structure IsName (good : Encoding → Prop) (named : Encoded) : Prop extends Attached good named where
  there : named.tree.isNil = false
  isFunction : named.encoding.isFunction = false
  noParenthesis : named.tree.isToken .openParen = false
  unmarked : named.tree.marksBound = false

theorem JoinsSome.elements_ne_nil {parts : NameParts} (joins : JoinsSome good parts) :
    parts.elements ≠ [] := by
  intro same
  have counted := joins.counted
  rw [same] at counted
  exact joins.there (List.length_eq_zero_iff.mp counted)

/-- The list that spells a name carries the name. -/
theorem isName_list {parts : NameParts} (joins : JoinsSome good parts) :
    IsName good ⟨Tree.encodedList .name (some (.qualified parts.encodings)) none parts.elements,
      .qualified parts.encodings⟩ := by
  have composed : (Tree.encodedList .name (some (.qualified parts.encodings)) none
      parts.elements).NamedBy good → ComposedOf good (.qualified parts.encodings) :=
    fun named => .name (Tree.Everywhere.self named rfl rfl _ rfl)
  refine ⟨⟨joins.told.told_encodedList fun named => ⟨fun encoding carries => ?_, fun _ => ?_,
    fun _ => joins.led joins.elements_ne_nil, fun type same => ?_, fun is => ?_⟩, composed⟩, rfl,
    Encoding.isFunction_qualified joins.components, rfl, rfl⟩
  · rcases carries with same | same
    · rw [← Option.some.inj same]
      exact composed named
    · cases same
  · refine ⟨parts.encodings, rfl, joins.there, joins.components, ?_⟩
    rw [joins.counted, Tree.componentCount, Tree.elements_encodedList]
    cases elements : parts.elements with
    | nil => exact absurd elements joins.elements_ne_nil
    | cons first rest => rfl
  · cases same
  · cases is

/-- One identifier stands for itself. -/
theorem isName_single {parts : NameParts} {single : Tree.Plain} (joins : JoinsSome good parts)
    (alone : parts.elements = [single]) (identifier : single.isToken .identifier = true) :
    IsName good ⟨single, .qualified parts.encodings⟩ := by
  have component : IsComponent (.qualified parts.encodings) := by
    have counted := joins.counted
    have other : single.isToken .colonColon = false := by
      rw [Tree.isToken, eq_of_beq identifier]
      rfl
    have one : componentsIn [single] = 1 := by
      unfold componentsIn countsComponent
      rw [List.headD_cons, other, List.countP_cons_of_pos (by rw [identifier]; rfl),
        List.countP_nil]
      rfl
    rw [alone, one] at counted
    rcases List.length_eq_one_iff.mp counted with ⟨part, same⟩
    rw [same]
    exact joins.components part (same ▸ List.mem_singleton_self part)
  have told : AllTold good [single] := alone ▸ joins.told
  refine ⟨⟨told.told_single, fun _ => .component component⟩, ?_, component.isFunction_eq, ?_, ?_⟩
  · cases single with
    | nil => cases identifier
    | leaf label token | cell label construct name type head tail => rfl
  · change single.isToken .openParen = false
    rw [Tree.isToken, eq_of_beq identifier]
    rfl
  · unfold Tree.marksBound Tree.isToken
    rw [eq_of_beq identifier]
    rfl

theorem isName_nameTree {parts : NameParts} (joins : JoinsSome good parts) :
    IsName good
      ⟨nameTree parts.elements (.qualified parts.encodings), .qualified parts.encodings⟩ := by
  unfold nameTree
  split
  · next single alone =>
    split
    · next identifier => exact isName_single joins alone identifier
    · exact isName_list joins
  · exact isName_list joins

theorem name_told (tells : Tells good g) (inType : Bool) :
    Reads anywhere (name g inType) fun named _ => IsName good named := by
  refine .optional (by decide) (fun colons readColons leaf => ?_) ?_
  · have none := countsComponent_of_isLeaf leaf (by rintro _ rfl; decide)
    have start : Joins good ⟨[colons], [.globalScope]⟩ := by
      refine ⟨.single leaf.told, List.forall_mem_singleton.mpr .globalScope, ?_,
        fun _ => leaf.leadsName (by decide)⟩
      rcases leaf with ⟨token, kind, rfl, _⟩
      unfold componentsIn
      rw [List.countP_cons_of_neg (by simp [none])]
      simp [Tree.isToken, Tree.kind?, Tree.token?, Tree.ofToken, kind]
    exact .bind (nameComponents_told tells inType start) fun parts read joins =>
      .pure (isName_nameTree joins)
  · have start : Joins good ⟨[], []⟩ :=
      ⟨.nil, fun part member => absurd member List.not_mem_nil, rfl, fun some => absurd rfl some⟩
    exact .bind (nameComponents_told tells inType start) fun parts read joins =>
      .pure (isName_nameTree joins)

end Grammar
end CppNames
