import CppNames.Proofs.Carried.Name
import CppNames.Proofs.Grammar.Declarator

namespace CppNames
namespace Grammar

/-!
# What declarators carry

A declarator carries the type that it makes of the type in front of it.  Only its first suffix
can make this a function type: the type in front of a declarator is none, and pointers and
references begin with marks of their own.  The parameters of that suffix are the first list in
parentheses of the declarator, and each of them carries one type.

The type in front is composed of names that stand outside the declarator.  So what is known of it
may depend on a condition, which is met where those names are good.
-/

open Encoding (ComposedOf)
open CppNames.Tree (AllTold AllNamedBy)

variable {g : Productions} {place : Where} {good : Encoding → Prop}
  {trees : List Tree.Plain} {tree : Tree.Plain} {read : List Token}

/-! ## Builtin types and casts -/

/-- The type of words for a builtin type. -/
inductive IsBuiltin : Encoding → Prop where
  | plain {c : Char} : c ∈ "bcwisljfdrve?*".toList → IsBuiltin (.builtin c)
  | signed {c sign : Char} : c ∈ "bcwisljfdrve?*".toList → sign ∈ "SU".toList →
    IsBuiltin (.builtin sign ++ .builtin c)

theorem baseCode_mem (words : BuiltinWords) : words.baseCode ∈ "bcwisljfdrve?*".toList := by
  unfold BuiltinWords.baseCode
  repeat' split
  all_goals decide

theorem isBuiltin_of_encoding? {words : BuiltinWords} {encoding : Encoding}
    (same : words.encoding? = some encoding) : IsBuiltin encoding := by
  have base := baseCode_mem words
  unfold BuiltinWords.encoding? at same
  split at same
  · rw [← Option.some.inj same]
    split
    · exact .signed base (by decide)
    · split
      · exact .signed base (by decide)
      · exact .plain base
    · exact .plain base
  · cases same

theorem isBuiltin_encoding (words : BuiltinWords) : IsBuiltin words.encoding := by
  unfold BuiltinWords.encoding
  cases same : words.encoding? with
  | none => exact .plain (by decide)
  | some encoding => exact isBuiltin_of_encoding? same

theorem IsBuiltin.composed {encoding : Encoding} (isBuiltin : IsBuiltin encoding) :
    ComposedOf good encoding := by
  cases isBuiltin with
  | plain listed => exact .builtin listed
  | signed listed sign =>
    exact .modified (List.mem_append_left "CVPR".toList sign) (.builtin listed)

theorem IsBuiltin.isFunction_eq {encoding : Encoding} (isBuiltin : IsBuiltin encoding) :
    encoding.isFunction = false := by
  cases isBuiltin with
  | plain listed => exact Encoding.isFunction_append .empty (by decide) listed
  | signed _ sign => exact Encoding.isFunction_append (.builtin _) (by decide) sign

/-- A name or a type that is no function type. -/
structure IsPlain (good : Encoding → Prop) (attached : Encoded) : Prop
    extends Attached good attached where
  isFunction : attached.encoding.isFunction = false

theorem inherited_told {admits : Construct → List Tree.Plain → Prop}
    (other : ∀ construct trees, admits construct trees →
      construct ≠ .name ∧ construct ≠ .declarator) :
    Inherited admits (fun tree _ => tree.Told good) (fun tree _ => ToldItem good tree) where
  nil := Tree.told_nil
  leaf leaf := ⟨leaf.told, by rcases leaf with ⟨token, _, rfl, _⟩; rfl⟩
  element := ToldItem.told
  there := ToldItem.there
  seq each := each.allTold.told_seq
  list admitted each := ⟨each.allTold.told_list (other _ _ admitted), rfl⟩

theorem told_grouped (told : AllTold good trees) : (grouped trees).Told good := by
  unfold grouped
  split
  · next single => exact told.told_single
  · exact told.told_seq

theorem Tells.expressions (tells : Tells good g) :
    Expressions (fun tree _ => tree.Told good) (fun tree _ => ToldItem good tree)
      (fun type _ => IsPlain good type) g where
  inherited := inherited_told fun construct trees admitted => by
    refine ⟨fun same => ?_, fun same => ?_⟩
    · rw [same] at admitted
      cases admitted.1
    · exact admitted.2.1 same
  typeId := tells.typeId.weaken fun _ _ told => told.1
  assignment := tells.assignment
  expression := tells.expression
  cast := tells.cast
  binary := tells.binary
  initializers := tells.initializers
  named inType := (name_told tells inType).weaken fun _ _ name =>
    ⟨⟨name.told, name.there⟩, name.toAttached, name.isFunction⟩
  words spelled leaves :=
    ⟨⟨told_grouped leaves.leavesTold, fun _ => (isBuiltin_encoding spelled).composed⟩,
      (isBuiltin_encoding spelled).isFunction_eq⟩
  call plain each := by
    have parts := AllTold.cons plain.told each.allTold
    exact ⟨parts.told_typed (by decide) (fun all => plain.composed (all _ List.mem_cons_self))
      plain.isFunction, rfl⟩

/-! ## In front of the name -/

theorem isFunction_pointerTo (target : Encoding) : target.pointerTo.isFunction = false :=
  Encoding.isFunction_of_beginsWith rfl rfl

theorem isFunction_referenceTo (target : Encoding) : target.referenceTo.isFunction = false :=
  Encoding.isFunction_of_beginsWith rfl rfl

theorem isFunction_volatileOf (target : Encoding) : target.volatileOf.isFunction = false :=
  Encoding.isFunction_of_beginsWith rfl rfl

theorem IsLeaf.unmarked {test : Token.Kind → Prop} (leaf : IsLeaf test tree read)
    (different : ∀ kind, test kind → kind ∉ [Token.Kind.openBracket, .colon, .equals]) :
    tree.marksBound = false := by
  rcases leaf with ⟨token, holds, rfl, _⟩
  refine List.any_eq_false.mpr fun kind marks same => different _ holds ?_
  have found : token.kind = kind := Option.some.inj (eq_of_beq same)
  rw [found]
  exact marks

theorem Each.unmarked {test : Token.Kind → Prop} (each : Each (IsLeaf test) trees read)
    (different : ∀ kind, test kind → kind ∉ [Token.Kind.openBracket, .colon, .equals]) :
    ∀ tree ∈ trees, tree.marksBound = false := by
  induction each with
  | nil => exact fun tree member => absurd member List.not_mem_nil
  | cons leaf _ ih => exact List.forall_mem_cons.mpr ⟨leaf.unmarked different, ih⟩

/-- What stands in front of the name of a declarator, and the type that it makes. -/
structure IsFront (good : Encoding → Prop) (given : Prop) (front : List Tree.Plain × Encoding) :
    Prop where
  told : AllTold good front.1
  unmarked : ∀ tree ∈ front.1, tree.marksBound = false
  noParenthesis : ∀ tree ∈ front.1, tree.isToken .openParen = false
  composed : given → ComposedOf good front.2
  isFunction : front.2.isFunction = false

theorem composed_qualifiedBy {target : Encoding} (composed : ComposedOf good target)
    (qualifiers : List Tree.Plain) : ComposedOf good (qualifiedBy target qualifiers) := by
  induction qualifiers generalizing target with
  | nil => exact composed
  | cons first rest ih =>
    refine ih ?_
    dsimp only
    split
    · exact composed.constOf
    · exact composed.volatileOf

theorem isFunction_qualifiedBy {target : Encoding} (plain : target.isFunction = false)
    (qualifiers : List Tree.Plain) : (qualifiedBy target qualifiers).isFunction = false := by
  induction qualifiers generalizing target with
  | nil => exact plain
  | cons first rest ih =>
    refine ih ?_
    dsimp only
    split
    · exact Encoding.isFunction_constOf plain
    · exact isFunction_volatileOf target

theorem Each.leavesDiffer {test : Token.Kind → Prop} (each : Each (IsLeaf test) trees read)
    {kind : Token.Kind} (different : ∀ found, test found → found ≠ kind) :
    ∀ tree ∈ trees, tree.isToken kind = false := by
  induction each with
  | nil => exact fun tree member => absurd member List.not_mem_nil
  | cons leaf _ ih => exact List.forall_mem_cons.mpr ⟨leaf.isToken different, ih⟩

theorem isCvQualifier_unmarked (kind : Token.Kind) (qualifies : kind.isCvQualifier = true) :
    kind ∉ [Token.Kind.openBracket, .colon, .equals] := by
  intro marks
  have none : [Token.Kind.openBracket, .colon, .equals].all (!·.isCvQualifier) = true := by decide
  have other := List.all_eq_true.mp none kind marks
  rw [qualifies] at other
  cases other

theorem pointers_told {given : Prop} {base : Encoding} (composed : given → ComposedOf good base)
    (plain : base.isFunction = false) :
    Reads place (pointers base) fun front _ => IsFront good given front := by
  refine .repeatFromNothing (fun front _ => IsFront good given front)
    ⟨.nil, fun tree member => absurd member List.not_mem_nil,
      fun tree member => absurd member List.not_mem_nil, composed, plain⟩
    fun front read holds => ?_
  refine .kind fun found => ?_
  split
  · refine .bind (.takeSeen (by decide)) fun star readStar leaf => ?_
    refine .bind (.takeRun rfl) fun qualifiers readQualifiers leaves => .pure ?_
    refine ⟨holds.told.append (.cons leaf.told leaves.leavesTold), ?_, ?_, fun condition =>
      composed_qualifiedBy (holds.composed condition).pointerTo qualifiers,
      isFunction_qualifiedBy (isFunction_pointerTo front.2) qualifiers⟩
    · exact List.forall_mem_append.mpr ⟨holds.unmarked,
        List.forall_mem_cons.mpr ⟨leaf.unmarked (by rintro _ rfl; decide),
          leaves.unmarked isCvQualifier_unmarked⟩⟩
    · have noParenthesis : ∀ tree ∈ qualifiers, tree.isToken .openParen = false :=
        leaves.leavesDiffer fun kind test same => by rw [same] at test; cases test
      exact List.forall_mem_append.mpr ⟨holds.noParenthesis,
        List.forall_mem_cons.mpr ⟨leaf.isToken (by rintro _ rfl; decide), noParenthesis⟩⟩
  · refine .bind (.takeSeen (by decide)) fun amp readAmp leaf => .pure ?_
    refine ⟨holds.told.append (.single leaf.told), ?_, ?_,
      fun condition => (holds.composed condition).referenceTo, isFunction_referenceTo front.2⟩
    · exact List.forall_mem_append.mpr ⟨holds.unmarked,
        List.forall_mem_singleton.mpr (leaf.unmarked (by rintro _ rfl; decide))⟩
    · exact List.forall_mem_append.mpr ⟨holds.noParenthesis,
        List.forall_mem_singleton.mpr (leaf.isToken (by rintro _ rfl; decide))⟩
  · exact .pure holds

theorem declaredName_told (tells : Tells good g) (form : DeclaratorForm) :
    Reads anywhere (declaredName g form) fun named _ => ∀ found ∈ named, IsName good found := by
  refine .kind fun found => ?_
  split
  · refine .bind (name_told tells false).ofAnywhere fun named read name => .pure ?_
    intro found same
    rw [← Option.some.inj same]
    exact name
  · split
    · exact .fail
    · exact .pure fun found absent => by cases absent

/-! ## Parameters -/

/-- What a parameter list has so far, with the types that it lists. -/
structure IsItems (good : Encoding → Prop) (items : ParameterItems) : Prop where
  told : AllTold good items.elements
  types : Tree.typesIn items.elements = items.types
  ellipsis : items.elements.any (·.isToken .ellipsis) = items.ellipsis
  composed : AllNamedBy good items.elements → ∀ type ∈ items.types, ComposedOf good type

theorem isItems_nil : IsItems good ⟨[], [], false⟩ :=
  ⟨.nil, rfl, rfl, fun _ _ member => absurd member List.not_mem_nil⟩

theorem IsLeaf.isToken_eq {kind : Token.Kind} (leaf : IsLeaf (· = kind) tree read) :
    tree.isToken kind = true := by
  rcases leaf with ⟨token, rfl, rfl, _⟩
  exact beq_self_eq_true _

/-- A token behind the parameters, which may be an ellipsis. -/
theorem IsItems.addToken {items : ParameterItems} {kind : Token.Kind} (isItems : IsItems good items)
    (leaf : IsLeaf (· = kind) tree read) :
    IsItems good { items with
      elements := items.elements ++ [tree]
      ellipsis := items.ellipsis || tree.isToken .ellipsis } where
  told := isItems.told.append (.single leaf.told)
  types := by
    have none : Tree.typesIn [tree] = [] := by
      rcases leaf with ⟨token, _, rfl, _⟩
      rfl
    rw [Tree.typesIn_append, isItems.types, none, List.append_nil]
  ellipsis := by rw [List.any_append, isItems.ellipsis, List.any_cons, List.any_nil, Bool.or_false]
  composed named := isItems.composed (List.forall_mem_append.mp named).1

theorem IsItems.addParameter {items : ParameterItems} {parameter : Encoded}
    (isItems : IsItems good items) (isParameter : IsParameter good parameter) :
    IsItems good { items with
      elements := items.elements ++ [parameter.tree]
      types := items.types ++ [parameter.encoding] } where
  told := isItems.told.append (.single isParameter.told)
  types := by
    have one : Tree.typesIn [parameter.tree] = [parameter.encoding] := by
      unfold Tree.typesIn
      rw [List.filter_singleton, isParameter.isA]
      change [parameter.tree.type?.getD .empty] = [parameter.encoding]
      rw [isParameter.typed]
      rfl
    rw [Tree.typesIn_append, isItems.types, one]
  ellipsis := by
    have list : parameter.tree.isToken .ellipsis = false := by
      have declares := isParameter.isA
      cases same : parameter.tree with
      | cell label construct name type head tail => rfl
      | nil | leaf label token => rw [same] at declares; cases declares
    rw [List.any_append, isItems.ellipsis, List.any_cons, List.any_nil, Bool.or_false, list,
      Bool.or_false]
  composed named := by
    rcases List.forall_mem_append.mp named with ⟨before, last⟩
    refine List.forall_mem_append.mpr ⟨isItems.composed before, List.forall_mem_singleton.mpr ?_⟩
    exact isParameter.composed (List.forall_mem_singleton.mp last)

theorem parameterItems_told (tells : Tells good g) :
    Reads place (parameterItems g) fun items _ => IsItems good items := by
  refine .repeatFromNothing (fun items _ => IsItems good items) isItems_nil
    fun items read holds => ?_
  refine .optional (by decide) (fun dots readDots leaf => .pure ?_) ?_
  · have added := holds.addToken leaf
    rw [leaf.isToken_eq, Bool.or_true] at added
    exact added
  · refine .bind tells.parameter fun parameter readParameter isParameter => ?_
    have more := holds.addParameter isParameter
    refine .optional (by decide) (fun comma readComma leaf => .pure ?_) ?_
    · have added := more.addToken leaf
      rw [leaf.isToken (by rintro _ rfl; decide), Bool.or_false] at added
      exact added
    · refine .optional (by decide) (fun dots readDots leaf => .pure ?_) (.pure more)
      have added := more.addToken leaf
      rw [leaf.isToken_eq, Bool.or_true] at added
      exact added

/-- A parameter list in parentheses, with the types that it lists. -/
structure IsClause (good : Encoding → Prop) (clause : ParameterClause) : Prop where
  told : AllTold good [clause.opening, clause.parameters, clause.closing]
  unmarked : ∀ tree ∈ [clause.opening, clause.parameters, clause.closing], tree.marksBound = false
  opening : clause.opening.isToken .openParen = true
  types : clause.parameters.listedTypes = clause.types
  ellipsis : clause.parameters.listsEllipsis = clause.ellipsis
  composed : clause.parameters.NamedBy good → ∀ type ∈ clause.types, ComposedOf good type

theorem parameterClause_told (tells : Tells good g) :
    Reads anywhere (parameterClause g) fun clause _ => IsClause good clause := by
  refine .bind (.expect (by decide)) fun opening readOpening leafOpening => ?_
  refine .seesBind (.pure isItems_nil) (parameterItems_told tells) fun items readItems holds => ?_
  refine .bind (.expect (by decide)) fun closing readClosing leafClosing => .pure ?_
  refine ⟨.cons leafOpening.told (.cons holds.told.told_seq (.single leafClosing.told)), ?_,
    leafOpening.isToken_eq, ?_, ?_, fun named type member => ?_⟩
  · exact List.forall_mem_cons.mpr ⟨leafOpening.unmarked (by rintro _ rfl; decide),
      List.forall_mem_cons.mpr ⟨Tree.marksBound_of_isLeaf (isLeaf_seq _),
        List.forall_mem_singleton.mpr (leafClosing.unmarked (by rintro _ rfl; decide))⟩⟩
  · unfold Tree.listedTypes
    rw [Tree.elements_seq, holds.types]
  · unfold Tree.listsEllipsis
    rw [Tree.elements_seq, holds.ellipsis]
  · refine holds.composed (Tree.namedBy_seq named) type ?_
    revert member
    change type ∈ (if items.types = [.builtin 'v'] then [] else items.types) → _
    split
    · exact fun absent => absurd absent List.not_mem_nil
    · exact id

/-! ## Suffixes -/

/-- The types in a suffix are composed of known names. -/
def SuffixComposed (good : Encoding → Prop) : Suffix → Prop
  | .function parameters _ _ => ∀ parameter ∈ parameters, ComposedOf good parameter
  | .array _ => True

theorem composed_apply {suffix : Suffix} {target : Encoding} (known : SuffixComposed good suffix)
    (composed : ComposedOf good target) : ComposedOf good (suffix.apply target) := by
  cases suffix with
  | array length => exact .array length composed
  | function parameters ellipsis isConst =>
    have made : ComposedOf good (.function parameters ellipsis target) :=
      .function ellipsis known composed
    cases isConst with
    | true => exact made.constOf
    | false => exact made

theorem composed_foldr {suffixes : List Suffix} {target : Encoding}
    (known : ∀ suffix ∈ suffixes, SuffixComposed good suffix) (composed : ComposedOf good target) :
    ComposedOf good (suffixes.foldr (fun suffix target => suffix.apply target) target) := by
  induction suffixes with
  | nil => exact composed
  | cons first rest ih =>
    rcases List.forall_mem_cons.mp known with ⟨own, others⟩
    exact composed_apply own (ih others)

/-- Elements that begin with a parenthesis and a list of parameters. -/
def BeginsWithParameters (elements : List Tree.Plain) (parameters : List Encoding)
    (ellipsis : Bool) : Prop :=
  ∃ opening list rest, elements = opening :: list :: rest ∧ opening.isToken .openParen = true ∧
    list.listedTypes = parameters ∧ list.listsEllipsis = ellipsis

/-- What was read of one suffix, and the bounds in it. -/
structure IsSuffix (good : Encoding → Prop) (read : List Tree.Plain × Suffix) : Prop where
  told : AllTold good read.1
  bounds : ∃ bounds, Tree.Holds read.1 bounds ∧
    read.2.length?.toList = bounds.map arrayLength?
  array : (∀ tree ∈ read.1, tree.isToken .openParen = false) → read.2.length?.isSome = true
  composed : AllNamedBy good read.1 → SuffixComposed good read.2
  parameters : ∀ parameters ellipsis isConst, read.2 = .function parameters ellipsis isConst →
    BeginsWithParameters read.1 parameters ellipsis

theorem exceptionSpecification_unmarked (tells : Tells good g) :
    Reads anywhere (exceptionSpecification g) fun trees _ =>
      ∀ tree ∈ trees, tree.marksBound = false := by
  refine .optional (by decide) (fun keyword readKeyword leaf => ?_)
    (.pure fun tree member => absurd member List.not_mem_nil)
  refine .bind (.expect (by decide)) fun opening readOpening leafOpening => ?_
  refine .bind tells.expressions.thrownTypes_reads fun types readTypes each => ?_
  refine .bind (.expect (by decide)) fun closing readClosing leafClosing => .pure ?_
  exact List.forall_mem_cons.mpr ⟨leaf.unmarked (by rintro _ rfl; decide),
    List.forall_mem_cons.mpr ⟨leafOpening.unmarked (by rintro _ rfl; decide),
      List.forall_mem_cons.mpr ⟨Tree.marksBound_of_isLeaf (isLeaf_seq _),
        List.forall_mem_singleton.mpr (leafClosing.unmarked (by rintro _ rfl; decide))⟩⟩⟩

theorem functionSuffix_told (tells : Tells good g) :
    Reads anywhere (functionSuffix g) fun suffix _ => IsSuffix good suffix := by
  refine .bind (parameterClause_told tells) fun clause readClause isClause => ?_
  refine .bind (.takeRun rfl) fun qualifiers readQualifiers leaves => ?_
  refine .bind (tells.expressions.exceptionSpecification_reads.and
    (exceptionSpecification_unmarked tells)) fun exceptions readExceptions thrown => .pure ?_
  refine ⟨(isClause.told.append leaves.leavesTold).append thrown.1.allTold, ⟨[], ?_, rfl⟩,
    fun none => ?_, fun named => ?_, ?_⟩
  · exact Tree.holds_of_unmarked (List.forall_mem_append.mpr ⟨List.forall_mem_append.mpr
      ⟨isClause.unmarked, leaves.unmarked isCvQualifier_unmarked⟩, thrown.2⟩)
  · have other := none clause.opening (by simp)
    rw [isClause.opening] at other
    cases other
  · exact isClause.composed (named _ (by simp))
  · intro parameters ellipsis isConst same
    cases same
    exact ⟨clause.opening, clause.parameters, _, rfl, isClause.opening, isClause.types,
      isClause.ellipsis⟩

theorem arraySuffix_told (tells : Tells good g) :
    Reads (inFrontOf .openBracket) (arraySuffix g) fun suffix _ => IsSuffix good suffix := by
  refine .bind (.takeOf (by decide)) fun opening readOpening leafOpening => ?_
  refine .seesBind (.pure Tree.told_nil) tells.expression fun bound readBound told => ?_
  refine .bind (.expect (by decide)) fun closing readClosing leafClosing => .pure ?_
  exact ⟨.cons leafOpening.told (.cons told (.single leafClosing.told)),
    ⟨[bound], Tree.holds_brackets leafOpening.isToken_eq
      (leafClosing.unmarked (by rintro _ rfl; decide)), rfl⟩, fun _ => rfl, fun _ => trivial,
    fun parameters ellipsis isConst same => by cases same⟩

theorem BeginsWithParameters.append {elements parameters} {ellipsis : Bool}
    (begins : BeginsWithParameters elements parameters ellipsis) (behind : List Tree.Plain) :
    BeginsWithParameters (elements ++ behind) parameters ellipsis := by
  rcases begins with ⟨opening, list, rest, rfl, known⟩
  exact ⟨opening, list, rest ++ behind, rfl, known⟩

/-- What was read behind the name of a declarator. -/
structure IsBehind (good : Encoding → Prop) (behind : Suffixes) : Prop where
  told : AllTold good behind.elements
  bounds : ∃ bounds, Tree.Holds behind.elements bounds ∧
    behind.suffixes.filterMap Suffix.length? = bounds.map arrayLength?
  arrays : (∀ tree ∈ behind.elements, tree.isToken .openParen = false) →
    ∀ suffix ∈ behind.suffixes, suffix.length?.isSome = true
  composed : AllNamedBy good behind.elements →
    ∀ suffix ∈ behind.suffixes, SuffixComposed good suffix
  first : ∀ parameters ellipsis isConst rest,
    behind.suffixes = .function parameters ellipsis isConst :: rest →
    BeginsWithParameters behind.elements parameters ellipsis

/-- What the loop over suffixes has read, of which the first suffix begins it. -/
structure IsBehindSoFar (good : Encoding → Prop) (behind : Suffixes) : Prop
    extends IsBehind good behind where
  nothing : behind.suffixes = [] → behind.elements = []

theorem IsBehindSoFar.add {behind : Suffixes} {suffix : List Tree.Plain × Suffix}
    (soFar : IsBehindSoFar good behind) (isSuffix : IsSuffix good suffix) :
    IsBehindSoFar good { behind with
      elements := behind.elements ++ suffix.1, suffixes := behind.suffixes ++ [suffix.2] } where
  told := soFar.told.append isSuffix.told
  bounds := by
    rcases soFar.bounds with ⟨front, holdsFront, lengthsFront⟩
    rcases isSuffix.bounds with ⟨back, holdsBack, lengthsBack⟩
    refine ⟨front ++ back, holdsFront.append holdsBack, ?_⟩
    rw [List.filterMap_append, List.map_append, lengthsFront, ← lengthsBack, List.filterMap_cons]
    cases suffix.2.length? <;> rfl
  arrays none := by
    rcases List.forall_mem_append.mp none with ⟨before, last⟩
    exact List.forall_mem_append.mpr
      ⟨soFar.arrays before, List.forall_mem_singleton.mpr (isSuffix.array last)⟩
  composed named := by
    rcases List.forall_mem_append.mp named with ⟨before, last⟩
    exact List.forall_mem_append.mpr
      ⟨soFar.composed before, List.forall_mem_singleton.mpr (isSuffix.composed last)⟩
  first parameters ellipsis isConst rest same := by
    cases known : behind.suffixes with
    | nil =>
      dsimp only at same ⊢
      rw [known, List.nil_append] at same
      rw [soFar.nothing known, List.nil_append]
      exact isSuffix.parameters _ _ _ (List.cons.inj same).1
    | cons first others =>
      dsimp only at same
      rw [known, List.cons_append] at same
      refine (soFar.first parameters ellipsis isConst others ?_).append suffix.1
      rw [known, (List.cons.inj same).1]
  nothing none := absurd none (List.append_ne_nil_of_right_ne_nil _ (List.cons_ne_nil _ _))

theorem arguments_unmarked (tells : Tells good g) :
    Reads anywhere (arguments g) fun tree _ => tree.marksBound = false := by
  refine .sees (.pure rfl) ?_
  have item : Reads anywhere (do return [← g.assignment]) (Each fun _ _ => True) :=
    .bind tells.assignment fun tree read told => .pure (.cons trivial .nil)
  exact .bind (.inParentheses (.commaSeparated item fun tree read leaf => trivial))
    fun items read each => .pure (Tree.marksBound_of_isLeaf (isLeaf_seq items))

theorem initializerArguments_unmarked (tells : Tells good g) :
    Reads (fun tokens => place tokens ∧ kindOf tokens = .openParen) (initializerArguments g)
      fun trees _ => ∀ tree ∈ trees, tree.marksBound = false := by
  refine .bind (.takeSeen (by decide)) fun opening readOpening leafOpening => ?_
  refine .bind (arguments_unmarked tells) fun operands readOperands unmarked => ?_
  refine .bind (.expect (by decide)) fun closing readClosing leafClosing => .pure ?_
  exact List.forall_mem_cons.mpr ⟨leafOpening.unmarked (by rintro _ rfl; decide),
    List.forall_mem_cons.mpr ⟨unmarked,
      List.forall_mem_singleton.mpr (leafClosing.unmarked (by rintro _ rfl; decide))⟩⟩

theorem suffixes_told (tells : Tells good g) (form : DeclaratorForm) :
    Reads place (suffixes g form) fun behind _ => IsBehind good behind := by
  have start : IsBehindSoFar good ⟨[], [], false⟩ :=
    ⟨⟨.nil, ⟨[], fun _ => rfl, rfl⟩, fun _ suffix member => absurd member List.not_mem_nil,
      fun _ suffix member => absurd member List.not_mem_nil,
      fun parameters ellipsis isConst rest same => by cases same⟩, fun _ => rfl⟩
  refine .repeatFromNothing (fun behind _ => IsBehindSoFar good behind) start
    fun behind read soFar => ?_
  refine .kind fun found => ?_
  split
  · refine .asks fun parameters => ?_
    split
    · next initializes =>
      refine .bind ((tells.expressions.initializerArguments_reads.ofSeen (by decide)).and
        (initializerArguments_unmarked tells)) fun elements readElements each => .pure ?_
      have none : behind.suffixes = [] := by
        have both := (Bool.and_eq_true_iff.mp (Bool.and_eq_true_iff.mp initializes).1).2
        exact List.isEmpty_iff.mp both
      refine ⟨soFar.told.append each.1.allTold, ?_, fun _ suffix member => ?_,
        fun named suffix member => ?_, fun parameters ellipsis isConst rest same => ?_⟩
      · rcases soFar.bounds with ⟨bounds, holds, lengths⟩
        refine ⟨bounds ++ [], holds.append (Tree.holds_of_unmarked each.2), ?_⟩
        rw [List.append_nil]
        exact lengths
      · rw [none] at member
        exact absurd member List.not_mem_nil
      · exact soFar.composed (List.forall_mem_append.mp named).1 suffix member
      · dsimp only at same
        rw [none] at same
        cases same
    · exact .bind (functionSuffix_told tells).ofAnywhere fun suffix readSuffix isSuffix =>
        .pure (soFar.add isSuffix)
  · exact .bind ((arraySuffix_told tells).restrict fun _ begins => begins.2)
      fun suffix readSuffix isSuffix => .pure (soFar.add isSuffix)
  · exact .pure soFar.toIsBehind

/-! ## Whole declarators -/

/-- A declarator, which tells its type where the type in front of it is known. -/
structure Declares (good : Encoding → Prop) (given : Prop) (declared : Declared) : Prop where
  isA : declared.tree.isA .declarator = true
  typed : declared.tree.type? = some declared.type
  told : given → declared.tree.Told good

theorem Declares.isCell {given : Prop} {declared : Declared}
    (declares : Declares good given declared) : declared.tree.isCell = true :=
  Tree.isCell_of_construct? (eq_of_beq declares.isA)

/-- The first list in parentheses behind elements that are none. -/
theorem parameterList_of_noParenthesis {front behind : List Tree.Plain} {opening list : Tree.Plain}
    (none : ∀ tree ∈ front, tree.isToken .openParen = false)
    (opens : opening.isToken .openParen = true) {construct : Construct}
    {name type : Option Encoding} :
    (Tree.encodedList construct name type (front ++ opening :: list :: behind)).parameterList =
      list := by
  have elements : (Tree.encodedList construct name type
      (front ++ opening :: list :: behind)).elements = front ++ opening :: list :: behind := by
    rw [Tree.elements_encodedList]
    cases front <;> rfl
  unfold Tree.parameterList Tree.elementBehind
  rw [elements, List.dropWhile_append_of_pos fun tree member => by rw [none tree member]; rfl,
    List.dropWhile_cons_of_neg (by rw [opens]; decide)]
  rfl

/-- Only a first suffix with parameters makes a function type. -/
theorem isFunctionOf_foldr {suffixes : List Suffix} {pointed : Encoding}
    (known : ∀ suffix ∈ suffixes, SuffixComposed good suffix) (composed : ComposedOf good pointed)
    (plain : pointed.isFunction = false)
    (isFunction :
      (suffixes.foldr (fun suffix target => suffix.apply target) pointed).isFunction = true) :
    ∃ parameters ellipsis isConst rest, suffixes = .function parameters ellipsis isConst :: rest ∧
      Tree.IsFunctionOf good parameters ellipsis
        (suffixes.foldr (fun suffix target => suffix.apply target) pointed) := by
  cases suffixes with
  | nil =>
    rw [List.foldr_nil, plain] at isFunction
    cases isFunction
  | cons first rest =>
    rcases List.forall_mem_cons.mp known with ⟨own, others⟩
    cases first with
    | array length =>
      have none : ((rest.foldr (fun suffix target => suffix.apply target) pointed).arrayOf
          length).isFunction = false := Encoding.isFunction_of_beginsWith rfl rfl
      exact absurd isFunction (Bool.eq_false_iff.mp none)
    | function parameters ellipsis isConst =>
      refine ⟨parameters, ellipsis, isConst, rest, rfl, own, _, composed_foldr others composed, ?_⟩
      cases isConst with
      | true => exact .inr rfl
      | false => exact .inl rfl

theorem bitField_ends (tells : Tells good g) (form : DeclaratorForm) (isFunction : Bool) :
    Reads anywhere (bitField g form isFunction) fun width _ => Tree.EndsBounds width := by
  refine .sees ?_ ?_
  · split
    · refine .bind (.takeSeen (by decide)) fun colon readColon leaf => ?_
      refine .bind tells.expressions.conditionalExpression_reads fun width readWidth operand =>
        .pure ?_
      exact fun first same => .inl (Option.some.inj same ▸ leaf.isToken_eq)
    · exact .pure fun first absent => by cases absent
  · simp only [Bool.and_false]
    exact .pure fun first absent => by cases absent

theorem initializer_ends (tells : Tells good g) (form : DeclaratorForm) :
    Reads anywhere (initializer g form) fun value _ => Tree.EndsBounds value := by
  unfold initializer
  split
  · exact .pure fun first absent => by cases absent
  · refine .optional (by decide) (fun equals readEquals leaf => ?_)
      (.pure fun first absent => by cases absent)
    have rest : ∀ value, Reads anywhere (pure [equals, value])
        fun result _ => Tree.EndsBounds result := fun value =>
      .pure fun first same => .inr (Option.some.inj same ▸ leaf.isToken_eq)
    refine .sees ?_ ?_
    · exact .bind (tells.initializers.restrict fun _ begins => begins.2) fun value _ _ => rest value
    · exact .bind tells.assignment fun value _ _ => rest value

/-- The bounds of a declarator are those behind its name. -/
theorem bounded_of_parts {given : Prop} {front : List Tree.Plain × Encoding}
    {declared : Option Encoded} {behind : Suffixes} {width value : List Tree.Plain}
    {name : Option Encoding} (isFront : IsFront good given front)
    (isName : ∀ found ∈ declared, IsName good found) (isBehind : IsBehind good behind)
    (endsWidth : Tree.EndsBounds width) (endsValue : Tree.EndsBounds value) :
    (Tree.encodedList .declarator name
      (some (behind.suffixes.foldr (fun suffix target => suffix.apply target) front.2))
      (front.1 ++ (declared.map (·.tree)).toList ++ behind.elements ++ width ++ value)).Bounded := by
  have unmarked : ∀ tree ∈ front.1 ++ (declared.map (·.tree)).toList,
      tree.marksBound = false := by
    refine List.forall_mem_append.mpr ⟨isFront.unmarked, ?_⟩
    cases declared with
    | none => exact fun tree member => absurd member List.not_mem_nil
    | some found => exact List.forall_mem_singleton.mpr (isName found rfl).unmarked
  rcases isBehind.bounds with ⟨bounds, holds, lengths⟩
  refine ⟨behind.suffixes, front.2, rfl, ?_, fun none => isBehind.arrays fun tree member => ?_⟩
  · rw [Tree.bounds_encodedList, List.append_assoc _ width value,
      (Tree.holds_of_unmarked unmarked).append holds, Tree.boundsIn_of_ends endsWidth endsValue,
      List.append_nil]
    exact lengths
  · have among : tree ∈ front.1 ++ (declared.map (·.tree)).toList ++ behind.elements ++ width ++
        value := by simp [member]
    refine none tree ?_
    rw [Tree.elements_encodedList]
    revert among
    generalize front.1 ++ (declared.map (·.tree)).toList ++ behind.elements ++ width ++ value = all
    cases all with
    | nil => exact fun absent => absurd absent List.not_mem_nil
    | cons first rest => exact id

/-- The parts of a declarator tell what the whole carries. -/
theorem declares_of_parts {given : Prop} {front : List Tree.Plain × Encoding}
    {declared : Option Encoded} {behind : Suffixes} {width value : List Tree.Plain}
    (isFront : IsFront good given front) (isName : ∀ found ∈ declared, IsName good found)
    (isBehind : IsBehind good behind) (toldWidth : AllTold good width)
    (toldValue : AllTold good value) (endsWidth : Tree.EndsBounds width)
    (endsValue : Tree.EndsBounds value) (text : Option String) (isFunction : Bool) :
    Declares good given
      ⟨Tree.encodedList .declarator (declared.map (·.encoding))
          (some (behind.suffixes.foldr (fun suffix target => suffix.apply target) front.2))
          (front.1 ++ (declared.map (·.tree)).toList ++ behind.elements ++ width ++ value),
        text, behind.suffixes.foldr (fun suffix target => suffix.apply target) front.2,
        isFunction⟩ := by
  have told : AllTold good (declared.map (·.tree)).toList := by
    cases declared with
    | none => exact .nil
    | some found => exact .single (isName found rfl).told
  have noParenthesis : ∀ tree ∈ front.1 ++ (declared.map (·.tree)).toList,
      tree.isToken .openParen = false := by
    refine List.forall_mem_append.mpr ⟨isFront.noParenthesis, ?_⟩
    cases declared with
    | none => exact fun tree member => absurd member List.not_mem_nil
    | some found => exact List.forall_mem_singleton.mpr (isName found rfl).noParenthesis
  have all := (((isFront.told.append told).append isBehind.told).append toldWidth).append toldValue
  refine ⟨rfl, rfl, fun condition => all.told_carrying (by decide)
    (fun named encoding which => ?_) (fun named made same makesFunction => ?_)
    fun _ => bounded_of_parts isFront isName isBehind endsWidth endsValue⟩
  · rcases which with same | same
    · cases declared with
      | none => cases same
      | some found =>
        rw [← Option.some.inj same]
        exact (isName found rfl).composed (named _ (by simp))
    · rw [← Option.some.inj same]
      exact composed_foldr (isBehind.composed fun tree member => named tree (by simp [member]))
        (isFront.composed condition)
  · rw [← Option.some.inj same] at makesFunction ⊢
    rcases isFunctionOf_foldr (isBehind.composed fun tree member => named tree (by simp [member]))
      (isFront.composed condition) isFront.isFunction makesFunction with
      ⟨parameters, ellipsis, isConst, rest, begins, isFunctionOf⟩
    rcases isBehind.first parameters ellipsis isConst rest begins with
      ⟨opening, list, others, elements, opens, types, dots⟩
    have found : (Tree.encodedList .declarator (declared.map (·.encoding))
        (some (behind.suffixes.foldr (fun suffix target => suffix.apply target) front.2))
        (front.1 ++ (declared.map (·.tree)).toList ++ behind.elements ++ width ++
          value)).parameterList = list := by
      rw [elements, List.append_assoc, List.append_assoc, List.cons_append, List.cons_append]
      exact parameterList_of_noParenthesis noParenthesis opens
    rw [Tree.typeDeclarator_of_isA rfl]
    refine ⟨rfl, rfl, ?_⟩
    rw [found, types, dots]
    exact isFunctionOf

theorem declarator_told (tells : Tells good g) {given : Prop} {base : Encoding}
    (composed : given → ComposedOf good base) (plain : base.isFunction = false)
    (form : DeclaratorForm) :
    Reads anywhere (declarator g base form) fun declared _ => Declares good given declared := by
  refine .bind (pointers_told composed plain) fun front readFront isFront => ?_
  refine .bind (declaredName_told tells form) fun named readNamed isName => ?_
  refine .bind (suffixes_told tells form) fun behind readBehind isBehind => ?_
  have none : Reads anywhere (pure []) fun trees _ =>
      AllTold good trees ∧ Tree.EndsBounds trees := .pure ⟨.nil, fun first absent => by cases absent⟩
  cases behind.initialized with
  | true =>
    exact .bind none fun width _ toldWidth => .bind none fun value _ toldValue =>
      .pure (declares_of_parts isFront isName isBehind toldWidth.1 toldValue.1 toldWidth.2
        toldValue.2 _ _)
  | false =>
    refine .bind ((tells.expressions.bitField_reads form _).and (bitField_ends tells form _))
      fun width _ eachWidth => ?_
    refine .bind ((tells.expressions.initializer_reads form).and (initializer_ends tells form))
      fun value _ eachValue => .pure ?_
    exact declares_of_parts isFront isName isBehind eachWidth.1.allTold eachValue.1.allTold
      eachWidth.2 eachValue.2 _ _

end Grammar
end CppNames
