import CppNames.Grammar.Parse
import CppNames.Proofs.Binding.Passes
import CppNames.Proofs.Binding.Stable
import CppNames.Proofs.Call.Equivalent
import Mathlib.Order.Interval.Finset.Nat

namespace CppNames

/-!
# Default arguments of redeclared functions

Every declaration of a function may give default arguments to some of its parameters, and a later
one adds to them.  What is kept of a declaration is the number of its default arguments only, and
of two numbers the larger one is kept.  So a function takes as few arguments as one of its
declarations alone allows, and what several of them give together is lost.

`Table.Gathers` says this of every function of a table: there are declarators for its declaring
nodes, and its signature is made of theirs.  It is stable under binding, so it holds behind any
passes over any trees.
-/

namespace Binding

/-! ## Parameter lists -/

/-- The elements of a list that are counted as parameters. -/
def listedParameters (parameters : Node) : List Node :=
  parameters.present.filter fun element =>
    element.isA .parameterDeclaration && !isVoidParameter element

/-- Whether a parameter has a default argument. -/
def isDefaulted (parameter : Node) : Bool := parameter.third.hasToken .equals

/-- The parameters that a declarator declares. -/
def declaredParameters (declarator : Node) : List Node := listedParameters declarator.parameterList

/-- The places of the parameters to which a declarator gives default arguments. -/
def defaultedPlaces (declarator : Node) : Finset Nat :=
  (Finset.range (declaredParameters declarator).length).filter fun place =>
    (declaredParameters declarator)[place]?.any isDefaulted = true

theorem isA_of_isToken {element : Node} {kind : Token.Kind} (token : element.isToken kind = true)
    (construct : Construct) : element.isA construct = false := by
  cases element with
  | leaf => rfl
  | _ => cases token

theorem foldl_addParameter (elements : List Node) (signature : Signature) :
    elements.foldl addParameter signature =
      let listed := elements.filter fun element =>
        element.isA .parameterDeclaration && !isVoidParameter element
      ⟨signature.parameters + listed.length, signature.defaults + listed.countP isDefaulted,
        signature.ellipsis || elements.any (·.isToken .ellipsis)⟩ := by
  induction elements generalizing signature with
  | nil => simp
  | cons element rest ih =>
    rw [List.foldl_cons, ih]
    unfold addParameter
    by_cases dots : element.isToken .ellipsis = true
    · simp [dots, isA_of_isToken dots]
    · by_cases counts : (element.isA .parameterDeclaration && !isVoidParameter element) = true
      · rw [if_neg dots, if_pos counts]
        cases given : element.third.hasToken .equals with
        | true => simp [counts, dots, isDefaulted, given]; omega
        | false => simp [counts, dots, isDefaulted, given]; omega
      · rw [if_neg dots, if_neg counts]
        simp [counts, dots]

/-- A signature counts the parameters and the default arguments of a list. -/
theorem signatureOf_eq (parameters : Node) :
    signatureOf parameters = ⟨(listedParameters parameters).length,
      (listedParameters parameters).countP isDefaulted,
      parameters.present.any (·.isToken .ellipsis)⟩ := by
  unfold signatureOf
  rw [foldl_addParameter]
  simp [listedParameters]

theorem defaultedPlaces_eq {declarator : Node} {given : List Bool}
    (same : (declaredParameters declarator).map isDefaulted = given) :
    defaultedPlaces declarator =
      (Finset.range given.length).filter fun place => given[place]? = some true := by
  subst same
  unfold defaultedPlaces
  rw [List.length_map]
  refine Finset.filter_congr fun place inside => ?_
  rw [List.getElem?_map]
  cases (declaredParameters declarator)[place]? <;> simp

theorem card_places_eq_countP {α : Type} (test : α → Bool) (items : List α) :
    ((Finset.range items.length).filter fun place => items[place]?.any test = true).card =
      items.countP test := by
  induction items using List.reverseRecOn with
  | nil => rfl
  | append_singleton front last ih =>
    have same : (Finset.range front.length).filter (fun place =>
        (front ++ [last])[place]?.any test = true) =
        (Finset.range front.length).filter fun place => front[place]?.any test = true := by
      refine Finset.filter_congr fun place inside => ?_
      rw [List.getElem?_append_left (Finset.mem_range.mp inside)]
    rw [List.length_append, List.length_singleton, Finset.range_add_one, Finset.filter_insert, same,
      List.countP_append, List.countP_singleton, ← ih]
    rw [List.getElem?_append_right (Nat.le_refl _), Nat.sub_self]
    dsimp only [List.getElem?_cons_zero, Option.any_some]
    split
    · exact Finset.card_insert_of_notMem (by simp)
    · rfl

theorem card_defaultedPlaces (declarator : Node) :
    (defaultedPlaces declarator).card = (signatureOf declarator.parameterList).defaults := by
  rw [signatureOf_eq]
  exact card_places_eq_countP ..

end Binding

open Binding (signatureOf Announces Permitted declaredParameters defaultedPlaces isDefaulted)

/-! ## What is kept of declarations -/

/-- A function that some declarators declare: its parameters are those of the first one, and it has
as many default arguments as one of them gives, and none gives more. -/
structure Symbol.GatheredFrom (symbol : Symbol) (signature : Signature) (declarators : List Node) :
    Prop where
  labels : declarators.map (·.id) = symbol.declarations
  types : ∀ declarator ∈ declarators, declarator.type?.getD .empty = symbol.type
  first : ∃ first, declarators.head? = some first ∧
    (signatureOf first.parameterList).parameters = signature.parameters ∧
    (signatureOf first.parameterList).ellipsis = signature.ellipsis
  most : ∀ declarator ∈ declarators,
    (signatureOf declarator.parameterList).defaults ≤ signature.defaults
  reached : ∃ declarator ∈ declarators,
    (signatureOf declarator.parameterList).defaults = signature.defaults

/-- A further declarator declares a function again. -/
theorem Symbol.GatheredFrom.concat {old new : Symbol} {signature more : Signature}
    {declarators : List Node} (gathered : old.GatheredFrom signature declarators)
    {declarator : Node} (labels : new.declarations = old.declarations ++ [declarator.id])
    (type : new.type = old.type) (again : declarator.type?.getD .empty = old.type)
    (counts : signatureOf declarator.parameterList = more) :
    new.GatheredFrom { signature with defaults := max signature.defaults more.defaults }
      (declarators ++ [declarator]) := by
  subst counts
  rcases gathered.first with ⟨first, heads, parameters, ellipsis⟩
  refine ⟨?_, ?_, ⟨first, ?_, parameters, ellipsis⟩, ?_, ?_⟩
  · rw [List.map_append, gathered.labels, labels]
    rfl
  · rw [type]
    exact List.forall_mem_append.mpr ⟨gathered.types, List.forall_mem_singleton.mpr again⟩
  · rw [List.head?_append, heads]
    rfl
  · refine List.forall_mem_append.mpr ⟨fun other member => ?_, List.forall_mem_singleton.mpr ?_⟩
    · exact (gathered.most other member).trans (Nat.le_max_left ..)
    · exact Nat.le_max_right ..
  · by_cases larger : signature.defaults ≤ (signatureOf declarator.parameterList).defaults
    · exact ⟨declarator, by simp, (Nat.max_eq_right larger).symm⟩
    · rcases gathered.reached with ⟨other, member, same⟩
      refine ⟨other, List.mem_append_left _ member, same.trans ?_⟩
      exact (Nat.max_eq_left (Nat.le_of_not_le larger)).symm

namespace Table

/-- Every function of a table is gathered from permitted declarators. -/
def Gathers (permits : Node → Prop) (table : Table) : Prop :=
  ∀ id symbol, table.symbol id = .ok symbol → ∀ signature, symbol.kind.signature? = some signature →
    ∃ declarators, Permitted permits declarators ∧ symbol.GatheredFrom signature declarators

/-- What is merged with a function is a function of its type, and of the default arguments of both
the larger number is kept. -/
theorem signature?_of_relation {id : SymbolId} {old new : Symbol}
    (merges : relation id old new = .merge) {signature : Signature}
    (has : (mergedKind old.kind new.kind).signature? = some signature) :
    ∃ before more, old.kind.signature? = some before ∧ new.kind.signature? = some more ∧
      old.type = new.type ∧
      signature = { before with defaults := max before.defaults more.defaults } := by
  have sameType : ∀ {a b : Bool}, (if old.type == new.type then definedOnce a b else .coexist) =
      Relation.merge → old.type = new.type := by
    intro a b related
    by_contra differ
    rw [if_neg (by simpa using differ)] at related
    cases related
  have kinds := merges_of_relation merges
  unfold relation at merges
  revert kinds has merges
  generalize old.kind = oldKind
  generalize new.kind = newKind
  intro merges has kinds
  cases kinds with
  | functions once | functionTemplates once =>
    cases has
    exact ⟨_, _, rfl, rfl, sameType merges, rfl⟩
  | _ => cases has

namespace Gathers

variable {permits : Node → Prop} {table after : Table}

theorem of_symbol (gathers : table.Gathers permits)
    (same : ∀ id later, after.symbol id = .ok later → ∃ symbol, table.symbol id = .ok symbol ∧
      later.kind = symbol.kind ∧ later.declarations = symbol.declarations ∧
      later.type = symbol.type) : after.Gathers permits := by
  intro id later read signature has
  rcases same id later read with ⟨symbol, before, kind, declarations, type⟩
  rcases gathers id symbol before signature (kind ▸ has) with ⟨declarators, fits, gathered⟩
  refine ⟨declarators, fits, ?_, ?_, gathered.first, gathered.most, gathered.reached⟩
  · exact gathered.labels.trans declarations.symm
  · exact type ▸ gathered.types

theorem declare (gathers : table.Gathers permits) {name type : Encoding} {kind : SymbolKind}
    {scope : ScopeId} {node : Tree.NodeId} {span : Option Span} {answer : Except Refusal SymbolId}
    (announced : ∀ signature, kind.signature? = some signature → Announces permits node type signature)
    (done : table.declare scope (.ofDeclaration name kind type scope node span) =
      .ok (after, answer)) : after.Gathers permits := by
  cases declares_of_declare done with
  | fresh found read judged =>
    intro id symbol readSymbol signature has
    rw [symbol_modifyScope, symbol_withSymbol] at readSymbol
    split at readSymbol
    · cases readSymbol
      rcases announced signature has with ⟨declarator, permitted, rfl, rfl, rfl⟩
      refine ⟨[declarator], List.forall_mem_singleton.mpr permitted, rfl, ?_, ?_, ?_, ?_⟩
      · exact List.forall_mem_singleton.mpr rfl
      · exact ⟨declarator, rfl, rfl, rfl⟩
      · exact List.forall_mem_singleton.mpr (Nat.le_refl _)
      · exact ⟨declarator, List.mem_singleton_self _, rfl⟩
    · exact gathers id symbol readSymbol signature has
  | again found target read judged =>
    rcases of_judge_again judged with ⟨-, old, readOld, merges⟩
    intro id symbol readSymbol signature has
    rcases of_symbol_modifySymbol readSymbol with ⟨known, before, rfl | ⟨rfl, rfl⟩⟩
    · exact gathers id symbol before signature has
    · cases readOld.symm.trans before
      rcases signature?_of_relation merges has with ⟨before, more, own, further, alike, rfl⟩
      rcases gathers target old readOld before own with ⟨declarators, fits, gathered⟩
      rcases announced more further with ⟨declarator, permitted, rfl, rfl, rfl⟩
      refine ⟨declarators ++ [declarator], ?_, gathered.concat rfl rfl alike.symm rfl⟩
      exact List.forall_mem_append.mpr ⟨fits, List.forall_mem_singleton.mpr permitted⟩
  | refused found refusal read shared => exact gathers

/-- Binding declares functions by declarators only. -/
theorem stable : Binding.Stable permits (Gathers permits) := by
  refine .ofSymbols (fun same gathers => ?_) (fun id scope gathers => ?_)
    fun gathers _ announced done => gathers.declare announced done
  · refine gathers.of_symbol fun id later read => ⟨later, ?_, rfl, rfl, rfl⟩
    unfold Table.symbol at read ⊢
    rwa [same] at read
  · refine gathers.of_symbol fun other later read => ?_
    rcases of_symbol_modifySymbol read with ⟨old, before, rfl | ⟨-, rfl⟩⟩
    · exact ⟨later, before, rfl, rfl, rfl⟩
    · exact ⟨old, before, rfl, rfl, rfl⟩

/-- Passes over any trees gather functions from the declarators in them. -/
theorem afterPasses {passes : List Pass} {bound : Bound} (gathers : bound.table.Gathers permits)
    (fits : ∀ pass ∈ passes, Permitted permits pass.tree.preorder) :
    (bound.afterPasses passes).table.Gathers permits := by
  induction passes generalizing bound with
  | nil => exact gathers
  | cons pass rest ih =>
    rcases List.forall_mem_cons.mp fits with ⟨first, others⟩
    exact ih (stable.bind first pass.file pass.options gathers) others

end Gathers
end Table

/-! ## Places -/

/-- Every place from a start on, below a bound, is in one of some sets. -/
def Fills (given : List (Finset Nat)) (bound start : Nat) : Prop :=
  ∀ place, start ≤ place → place < bound → ∃ places ∈ given, place ∈ places

/-- One of some sets alone has as many places as there are from a start on, below a bound. -/
def Suffices (given : List (Finset Nat)) (bound start : Nat) : Prop :=
  ∃ places ∈ given, bound ≤ start + places.card

/-- No place is given twice, and behind a place that is given there is none that is not. -/
structure Accumulates (given : List (Finset Nat)) (bound : Nat) : Prop where
  apart : given.Pairwise Disjoint
  closed : ∀ places ∈ given, ∀ place ∈ places, Fills given bound place

/-- A set that has with a place all places behind it has all of the last ones that it has room
for. -/
theorem forall_mem_iff_le_card {places : Finset Nat} {bound : Nat}
    (inside : ∀ place ∈ places, place < bound)
    (closed : ∀ place ∈ places, ∀ later, place ≤ later → later < bound → later ∈ places)
    (start : Nat) :
    (∀ place, start ≤ place → place < bound → place ∈ places) ↔ bound ≤ start + places.card := by
  constructor
  · intro all
    have within : Finset.Ico start bound ⊆ places := fun place member =>
      all place (Finset.mem_Ico.mp member).1 (Finset.mem_Ico.mp member).2
    have fewer := Finset.card_le_card within
    rw [Nat.card_Ico] at fewer
    omega
  · intro enough place behind below
    by_contra missing
    have within : places ⊆ Finset.Ico (place + 1) bound := by
      intro other member
      refine Finset.mem_Ico.mpr ⟨Nat.lt_of_not_le fun before => missing ?_, inside other member⟩
      exact closed other member place before below
    have fewer := Finset.card_le_card within
    rw [Nat.card_Ico] at fewer
    omega

/-- The places below a bound that are in one of some sets. -/
def givenPlaces (given : List (Finset Nat)) (bound : Nat) : Finset Nat :=
  (Finset.range bound).filter fun place => ∃ places ∈ given, place ∈ places

section Places

variable {given : List (Finset Nat)} {bound : Nat}

theorem mem_givenPlaces {place : Nat} :
    place ∈ givenPlaces given bound ↔ place < bound ∧ ∃ places ∈ given, place ∈ places := by
  simp [givenPlaces]

theorem subset_givenPlaces {places : Finset Nat} (among : places ∈ given)
    (inside : ∀ place ∈ places, place < bound) : places ⊆ givenPlaces given bound :=
  fun place member => mem_givenPlaces.mpr ⟨inside place member, places, among, member⟩

theorem card_givenPlaces_le : (givenPlaces given bound).card ≤ bound :=
  (Finset.card_filter_le _ _).trans_eq (Finset.card_range bound)

/-- Sets that fill the end together fill as much of it as they have places. -/
theorem Accumulates.fills_iff (accumulates : Accumulates given bound) (start : Nat) :
    Fills given bound start ↔ bound ≤ start + (givenPlaces given bound).card := by
  rw [← forall_mem_iff_le_card (fun place member => (mem_givenPlaces.mp member).1)
    fun place member later behind below => ?_]
  · refine forall₃_congr fun place _ below => ?_
    rw [mem_givenPlaces, and_iff_right below]
  · rcases (mem_givenPlaces.mp member).2 with ⟨places, among, own⟩
    exact mem_givenPlaces.mpr ⟨below, accumulates.closed places among place own later behind below⟩

/-- Where one of some sets without common places has all of them, the others have none. -/
theorem Accumulates.pairwise_of_whole (accumulates : Accumulates given bound)
    {largest : Finset Nat} (among : largest ∈ given)
    (whole : ∀ places ∈ given, places ⊆ largest) :
    given.Pairwise fun first second => first = ∅ ∨ second = ∅ := by
  rcases List.append_of_mem among with ⟨front, back, rfl⟩
  have apart := (List.pairwise_middle fun disjoint => Disjoint.symm disjoint).mp accumulates.apart
  rw [List.pairwise_middle Or.symm]
  have others : ∀ places ∈ front ++ back, places = ∅ := by
    intro places member
    have disjoint := (List.pairwise_cons.mp apart).1 places member
    refine disjoint.symm.eq_bot_of_le (whole places ?_)
    exact List.mem_append.mpr ((List.mem_append.mp member).imp_right (List.mem_cons_of_mem _))
  refine List.pairwise_cons.mpr ⟨fun places member => .inr (others places member), ?_⟩
  exact List.pairwise_of_forall_mem_list fun places member _ _ => .inl (others places member)

/-- Where no two of some sets have places, one has all that are given. -/
theorem exists_whole (nonempty : given ≠ [])
    (single : given.Pairwise fun first second => first = ∅ ∨ second = ∅) :
    ∃ places ∈ given, givenPlaces given bound ⊆ places := by
  rcases Finset.eq_empty_or_nonempty (givenPlaces given bound) with none | ⟨place, member⟩
  · rcases List.exists_mem_of_ne_nil given nonempty with ⟨places, among⟩
    exact ⟨places, among, none ▸ Finset.empty_subset places⟩
  · rcases (mem_givenPlaces.mp member).2 with ⟨places, among, own⟩
    have symm : Std.Symm fun first second : Finset Nat => first = ∅ ∨ second = ∅ :=
      ⟨fun _ _ => Or.symm⟩
    refine ⟨places, among, fun other memberOther => ?_⟩
    rcases (mem_givenPlaces.mp memberOther).2 with ⟨others, amongOthers, ownOther⟩
    by_cases same : others = places
    · exact same ▸ ownOther
    · rcases single.forall amongOthers among same with empty | empty
      · exact absurd ownOther (empty ▸ Finset.notMem_empty other)
      · exact absurd own (empty ▸ Finset.notMem_empty place)

/-- Of sets that fill the end together, one alone has as many places as all of them exactly if no
second one has any. -/
theorem Accumulates.suffices_iff_fills (accumulates : Accumulates given bound)
    (nonempty : given ≠ []) (inside : ∀ places ∈ given, ∀ place ∈ places, place < bound) :
    (∀ start, Suffices given bound start ↔ Fills given bound start) ↔
      given.Pairwise fun first second => first = ∅ ∨ second = ∅ := by
  have part : ∀ places ∈ given, places ⊆ givenPlaces given bound :=
    fun places among => subset_givenPlaces among (inside places among)
  have fits : (givenPlaces given bound).card ≤ bound := card_givenPlaces_le
  constructor
  · intro alike
    -- the set that suffices at the first place that can be left out is all of them
    have enough := (accumulates.fills_iff (bound - (givenPlaces given bound).card)).mpr (by omega)
    rcases (alike _).mpr enough with ⟨largest, among, most⟩
    have whole : largest = givenPlaces given bound :=
      Finset.eq_of_subset_of_card_le (part largest among) (by omega)
    exact accumulates.pairwise_of_whole among (whole ▸ part)
  · intro single start
    rw [accumulates.fills_iff]
    constructor
    · rintro ⟨places, among, enough⟩
      exact enough.trans (Nat.add_le_add_left (Finset.card_le_card (part places among)) start)
    · intro enough
      rcases exists_whole nonempty single with ⟨places, among, whole⟩
      exact ⟨places, among, enough.trans (Nat.add_le_add_left (Finset.card_le_card whole) start)⟩

end Places

/-- The default arguments of a function suffice where those of one declarator do. -/
theorem Symbol.GatheredFrom.le_iff_suffices {symbol : Symbol} {signature : Signature}
    {declarators : List Node} (gathered : symbol.GatheredFrom signature declarators)
    (bound start : Nat) :
    bound ≤ start + signature.defaults ↔
      Suffices (declarators.map defaultedPlaces) bound start := by
  constructor
  · intro enough
    rcases gathered.reached with ⟨declarator, among, most⟩
    refine ⟨_, List.mem_map_of_mem among, ?_⟩
    rwa [Binding.card_defaultedPlaces, most]
  · rintro ⟨places, member, enough⟩
    rcases List.mem_map.mp member with ⟨declarator, among, rfl⟩
    rw [Binding.card_defaultedPlaces] at enough
    exact enough.trans (Nat.add_le_add_left (gathered.most declarator among) start)

namespace Candidate

open Encoding

/-! ## Calls -/

/-- A function takes the arguments of a call. -/
def IsViable (site : Site) (types : List (Option Encoding)) (id : SymbolId) : Prop :=
  ∃ candidate, ofFunction? site types id = .ok (some candidate)

/-- The conversion of an argument to its parameter is exact. -/
def Matches (sites : Conversion.Sites) (argument : Option Encoding) (parameter : Encoding) : Prop :=
  Conversion.find? sites argument parameter = .ok (some .exact)

theorem conversions?_of_matches {sites : Conversion.Sites} {types : List (Option Encoding)}
    {parameters : List Encoding}
    (exact : ∀ pair ∈ types.zip parameters, Matches sites pair.1 pair.2) :
    ∃ found, conversions? sites types parameters = .ok (some found) := by
  induction types generalizing parameters with
  | nil => exact ⟨[], rfl⟩
  | cons type rest ih =>
    cases parameters with
    | nil =>
      have none : ∀ pair ∈ rest.zip ([] : List Encoding), Matches sites pair.1 pair.2 := by simp
      rcases ih none with ⟨found, converts⟩
      refine ⟨.ellipsis :: found, ?_⟩
      unfold conversions?
      rw [converts]
      rfl
    | cons parameter parameters =>
      rcases List.forall_mem_cons.mp exact with ⟨first, others⟩
      rcases ih others with ⟨found, converts⟩
      refine ⟨.exact :: found, ?_⟩
      unfold conversions?
      rw [first, Outcome.ok_bind]
      dsimp only
      rw [converts]
      rfl

/-- Where all arguments match their parameters, their number decides. -/
theorem isViable_iff_takes {site : Site} {id : SymbolId} {symbol : Symbol} {signature : Signature}
    {written : List Encoding} {result : Encoding} {types : List (Option Encoding)}
    (read : site.table.symbol id = .ok symbol) (has : symbol.kind.signature? = some signature)
    (parts : symbol.type.functionParts? = .ok (some (written, result)))
    (counted : signature.parameters = (namedParameters written).length)
    (exact : ∀ pair ∈ types.zip (namedParameters written),
      Matches ⟨site, parameterSite site symbol⟩ pair.1 pair.2) :
    IsViable site types id ↔
      takes signature (namedParameters written).length types.length = true := by
  rcases conversions?_of_matches exact with ⟨found, converts⟩
  constructor
  · rintro ⟨candidate, suits⟩
    unfold ofFunction? at suits
    rw [read, Outcome.ok_bind, has] at suits
    dsimp only at suits
    rw [parts, Outcome.ok_bind] at suits
    dsimp only at suits
    rw [counted, Nat.max_self] at suits
    split at suits
    · assumption
    · cases suits
  · intro enough
    unfold IsViable ofFunction?
    rw [read, Outcome.ok_bind, has]
    dsimp only
    rw [parts, Outcome.ok_bind]
    dsimp only
    unfold parameterSite at converts
    rw [counted, Nat.max_self, if_pos enough, converts]
    exact ⟨_, rfl⟩

/-- An argument of the type of its parameter matches it, if the names in the type mean the same for
both and no qualifiers come from what the type stands for. -/
theorem matches_own {sites : Conversion.Sites} {type found : Encoding}
    (single : type.bare.element? = none) (argument : sites.argument.canonical type.bare = .ok found)
    (parameter : sites.parameter.canonical type.bare = .ok found)
    (value : found.stripCv = found ∧ found.namesFunction = false) {isParameter : Bool}
    (known : sites.parameter.isTypeParameter found = .ok isParameter) :
    Matches sites (some type) type := by
  rcases exists_qualifiers type.withoutReference with ⟨qualifiers, all, split⟩
  have written : sites.parameter.canonical type.withoutReference = .ok (⟨qualifiers⟩ ++ found) := by
    unfold Site.canonical at parameter ⊢
    rw [split, Site.canonicalWithin_qualified all]
    exact congrArg (Except.map (⟨qualifiers⟩ ++ ·)) parameter
  have plain : (⟨qualifiers⟩ ++ found : Encoding).stripCv = found :=
    (stripCv_qualified all value.2).trans value.1
  have decays : type.decayed = type.bare := by
    unfold decayed
    dsimp only
    rw [single]
  unfold Matches Conversion.find?
  dsimp only
  rw [written, Outcome.ok_bind, plain, known, Outcome.ok_bind]
  cases isParameter with
  | true => rfl
  | false =>
    rw [if_neg (by decide), decays, argument, Outcome.ok_bind]
    unfold Conversion.ofCanonical
    rw [if_pos rfl]
    rfl

end Candidate

open Candidate (IsViable Matches namedParameters parameterSite)

/-- Behind any passes over any trees, there are declarators for the declaring nodes of every
function.  Where they list its parameters, a call whose arguments match the parameters is viable
exactly if it has as many arguments as one of the declarators asks for.

The declarators together may ask for fewer.  Where no default argument is given twice and none is
missing behind another one, the two come to the same exactly if one declarator gives all default
arguments. -/
theorem isViable_of_declarations (passes : List Pass) (searchesBases : Bool) {table : Table}
    (made : ((Bound.fresh searchesBases).afterPasses passes).table = table) {id : SymbolId}
    {symbol : Symbol} (read : table.symbol id = .ok symbol) {signature : Signature}
    (isFunction : symbol.kind.signature? = some signature) {written : List Encoding}
    {result : Encoding} (parts : symbol.type.functionParts? = .ok (some (written, result))) :
    ∃ declarators : List Node,
      (∀ declarator ∈ declarators, ∃ pass ∈ passes, declarator ∈ pass.tree.preorder) ∧
      declarators.map (·.id) = symbol.declarations ∧
      (∀ declarator ∈ declarators, declarator.type?.getD .empty = symbol.type) ∧
      ((∀ declarator ∈ declarators,
          (declaredParameters declarator).length = (namedParameters written).length) →
        (∀ scope types, (∀ pair ∈ types.zip (namedParameters written),
            Matches ⟨⟨table, scope⟩, parameterSite ⟨table, scope⟩ symbol⟩ pair.1 pair.2) →
          (IsViable ⟨table, scope⟩ types id ↔
            if types.length ≤ (namedParameters written).length then
              Suffices (declarators.map defaultedPlaces) (namedParameters written).length types.length
            else signature.ellipsis = true)) ∧
        (Accumulates (declarators.map defaultedPlaces) (namedParameters written).length →
          ((∀ start,
              Suffices (declarators.map defaultedPlaces) (namedParameters written).length start ↔
                Fills (declarators.map defaultedPlaces) (namedParameters written).length start) ↔
            (declarators.map defaultedPlaces).Pairwise fun first second =>
              first = ∅ ∨ second = ∅))) := by
  have gathers : table.Gathers fun node => ∃ pass ∈ passes, node ∈ pass.tree.preorder := by
    refine made ▸ Table.Gathers.afterPasses (fun id symbol read => ?_) fun pass member node inside =>
      ⟨pass, member, inside⟩
    exact absurd (Table.hasSymbol_of_symbol read) (Nat.not_lt_zero _)
  rcases gathers id symbol read signature isFunction with ⟨declarators, there, gathered⟩
  refine ⟨declarators, there, gathered.labels, gathered.types, fun listed => ⟨?_, ?_⟩⟩
  · intro scope types exact
    rcases gathered.first with ⟨first, heads, parameters, -⟩
    have counted : signature.parameters = (namedParameters written).length := by
      rw [← parameters, ← listed first (List.mem_of_head? heads), Binding.signatureOf_eq]
      rfl
    rw [Candidate.isViable_iff_takes read isFunction parts counted exact]
    unfold Candidate.takes
    split
    · rw [decide_eq_true_iff]
      exact gathered.le_iff_suffices _ _
    · exact Iff.rfl
  · intro accumulates
    refine accumulates.suffices_iff_fills ?_ ?_
    · rcases gathered.first with ⟨first, heads, -⟩
      rintro none
      rw [List.map_eq_nil_iff.mp none] at heads
      cases heads
    · intro places member place inside
      rcases List.mem_map.mp member with ⟨declarator, among, rfl⟩
      rw [← listed declarator among]
      exact Finset.mem_range.mp (Finset.mem_filter.mp inside).1

/-- Two declarations of a function that give one default argument each. -/
def sharedDefaults : String := "void f(int a, int b = 2); void f(int a = 1, int b);"

/-- Each of two declarators gives one default argument.  Both are there, and yet the function takes
no call without arguments, but one with one argument. -/
theorem isViable_of_declarations_shared : ∃ parsed table,
    parse "a.cc" sharedDefaults {} = .ok parsed ∧
    ((Bound.fresh true).afterPasses [⟨"a.cc", {}, parsed.tree⟩]).table = table ∧
    Accumulates [{1}, {0}] 2 ∧ Fills [{1}, {0}] 2 0 ∧
    ¬ IsViable ⟨table, Table.global⟩ [] ⟨0⟩ ∧
    IsViable ⟨table, Table.global⟩ [some (.builtin 'i')] ⟨0⟩ := by
  have facts : (parse "a.cc" sharedDefaults {}).toOption.any fun parsed =>
      (((Bound.fresh true).afterPasses [⟨"a.cc", {}, parsed.tree⟩]).table.symbol
        ⟨0⟩).toOption.any fun symbol =>
        symbol.kind.signature? == some ⟨2, 1, false⟩ && symbol.declarations == [4, 24] &&
        (symbol.type.functionParts?).toOption ==
          some (some ([.builtin 'i', .builtin 'i'], .builtin 'v')) &&
        parsed.tree.preorder.all fun node =>
          (node.id != 4 || (declaredParameters node).map isDefaulted == [false, true]) &&
          (node.id != 24 || (declaredParameters node).map isDefaulted == [true, false]) := by
    decide +kernel
  cases parses : parse "a.cc" sharedDefaults {} with
  | error stop => rw [parses] at facts; cases facts
  | ok parsed =>
    rw [parses] at facts
    generalize made : ((Bound.fresh true).afterPasses [⟨"a.cc", {}, parsed.tree⟩]).table = table
    simp only [Except.toOption, Option.any_some, made] at facts
    cases read : table.symbol ⟨0⟩ with
    | error fault => rw [read] at facts; cases facts
    | ok symbol =>
      rw [read] at facts
      simp only [Option.any_some, Bool.and_eq_true, beq_iff_eq, List.all_eq_true, Bool.or_eq_true,
        bne_iff_ne] at facts
      rcases facts with ⟨⟨⟨isFunction, labels⟩, type⟩, flags⟩
      have parts : symbol.type.functionParts? =
          .ok (some ([.builtin 'i', .builtin 'i'], .builtin 'v')) := by
        cases known : symbol.type.functionParts? with
        | error fault => rw [known] at type; cases type
        | ok found =>
          rw [known] at type
          exact congrArg Except.ok (Option.some.inj type)
      rcases isViable_of_declarations [⟨"a.cc", {}, parsed.tree⟩] true made read isFunction parts with
        ⟨declarators, there, ids, -, law⟩
      rw [labels] at ids
      rcases List.map_eq_cons_iff.mp ids with ⟨first, behind, rfl, isFirst, ids⟩
      rcases List.map_eq_cons_iff.mp ids with ⟨second, rest, rfl, isSecond, ids⟩
      cases List.map_eq_nil_iff.mp ids
      have inTree : ∀ declarator ∈ [first, second], declarator ∈ parsed.tree.preorder := by
        intro declarator member
        rcases there declarator member with ⟨pass, among, inside⟩
        cases List.mem_singleton.mp among
        exact inside
      have ofFirst := (flags first (inTree first (by simp))).1.resolve_left (absurd isFirst)
      have ofSecond := (flags second (inTree second (by simp))).2.resolve_left (absurd isSecond)
      have places : [first, second].map defaultedPlaces = [{1}, {0}] := by
        rw [List.map_cons, List.map_singleton, Binding.defaultedPlaces_eq ofFirst,
          Binding.defaultedPlaces_eq ofSecond]
        decide
      have all : Fills [{1}, {0}] 2 0 := by
        intro place _ below
        rcases (by omega : place = 0 ∨ place = 1) with rfl | rfl <;> simp
      have listed : ∀ declarator ∈ [first, second], (declaredParameters declarator).length = 2 := by
        intro declarator member
        rcases List.mem_pair.mp member with rfl | rfl
        · simpa using congrArg List.length ofFirst
        · simpa using congrArg List.length ofSecond
      rcases law listed with ⟨viable, -⟩
      rw [places] at viable
      refine ⟨parsed, table, rfl, made, ⟨?_, ?_⟩, all, ?_, ?_⟩
      · simp
      · exact fun _ _ _ _ later _ below => all later (Nat.zero_le _) below
      · intro suits
        have need := (viable Table.global [] (by simp)).mp suits
        rw [if_pos (by decide)] at need
        rcases need with ⟨places, among, enough⟩
        rcases List.mem_pair.mp among with rfl | rfl <;> exact absurd enough (by decide)
      · refine (viable Table.global [some (.builtin 'i')] fun pair member => ?_).mpr ?_
        · cases List.mem_singleton.mp member
          have plain : (Encoding.builtin 'i').core.isName = false := rfl
          have canonical := Conversion.canonical_of_core ⟨table, Table.global⟩ plain
          have there := Conversion.canonical_of_core (parameterSite ⟨table, Table.global⟩ symbol) plain
          exact Candidate.matches_own rfl canonical.1 there.1 ⟨rfl, rfl⟩ there.2
        · exact (if_pos (by decide)).mpr ⟨{1}, by simp, by decide⟩

end CppNames
