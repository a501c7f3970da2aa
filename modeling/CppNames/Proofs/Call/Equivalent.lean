import CppNames.Call.Resolve
import CppNames.Proofs.Call.Best
import CppNames.Proofs.Encoding.Complete
import CppNames.Proofs.Table.Growth
import CppNames.Proofs.Table.Representative

namespace CppNames

/-!
# Parameter lists that mean the same

A `const` or `volatile` in front of the type of a parameter is nothing to the caller, and an
array parameter is a pointer to its elements.  Conversions see it so: they look through both.
Declarations do not: two of them are one function exactly where their lists are spelled alike.

Between the two lies a gap.  A function declared with one list and defined with another one that
means the same is two functions, and where a call suits both of them, all their conversions are
the same.  So neither is ever chosen, whatever other functions have the name.
-/

namespace Encoding

/-! ## The lists of two function types -/

/-- The parameters as they are read back: a single `void` is none. -/
def readParameters (parameters : List Encoding) (ellipsis : Bool) : List Encoding :=
  if parameters = [builtin 'v'] ∧ ellipsis = false then [] else parameters

theorem functionParts_of_complete (ellipsis : Bool) {parameters : List Encoding}
    {result : Encoding} (complete : ∀ parameter ∈ parameters, Complete parameter)
    (target : Complete result) :
    (function parameters ellipsis result).functionParts = .ok
      (readParameters parameters ellipsis ++ if ellipsis then [builtin 'e'] else [], result) := by
  rw [functionParts_function (fun parameter member => (complete parameter member).spelled)
    target.spelled (.inl rfl)]
  unfold readParameters
  cases ellipsis with
  | true => simp
  | false => simp

theorem function_eq_iff (ellipsis : Bool) {left right : List Encoding} {result : Encoding}
    (leftComplete : ∀ parameter ∈ left, Complete parameter)
    (rightComplete : ∀ parameter ∈ right, Complete parameter) (target : Complete result) :
    function left ellipsis result = function right ellipsis result ↔
      readParameters left ellipsis = readParameters right ellipsis := by
  constructor
  · intro same
    have both := functionParts_of_complete ellipsis leftComplete target
    rw [same, functionParts_of_complete ellipsis rightComplete target] at both
    injection both with both
    exact (List.append_cancel_right (congrArg Prod.fst both)).symm
  · intro same
    have void (parameters : List Encoding) :
        function parameters ellipsis result =
          function (readParameters parameters ellipsis) ellipsis result := by
      unfold readParameters
      split
      · next single =>
        rw [single.1, single.2]
        rfl
      · rfl
    rw [void left, void right, same]

/-! ## Qualifiers and arrays -/

/-- The type that a parameter has for its callers: without `const` and `volatile` in front, and a
pointer in the place of an array. -/
def adjusted (type : Encoding) : Encoding :=
  match type.stripCv.element? with
  | some element => element.pointerTo
  | none => type.stripCv

variable {qualifiers : List UInt8}

theorem isLayer_of_isCvByte {byte : UInt8} (qualifier : isCvByte byte = true) :
    isLayer byte = true := by
  unfold isCvByte at qualifier
  unfold isLayer
  rw [qualifier]
  rfl

/-- A type is its qualifiers and what is behind them. -/
theorem exists_qualifiers (type : Encoding) :
    ∃ qualifiers : List UInt8, (∀ byte ∈ qualifiers, isCvByte byte = true) ∧
      type = ⟨qualifiers⟩ ++ type.stripCv := by
  unfold stripCv
  dsimp only
  split
  · exact ⟨[], fun _ member => absurd member List.not_mem_nil, rfl⟩
  · refine ⟨type.bytes.takeWhile isCvByte, fun byte member => ?_, ?_⟩
    · exact List.all_eq_true.mp List.all_takeWhile byte member
    · exact congrArg Encoding.mk List.takeWhile_append_dropWhile.symm

theorem layers_qualified (all : ∀ byte ∈ qualifiers, isCvByte byte = true) (type : Encoding) :
    (⟨qualifiers⟩ ++ type : Encoding).layers = ⟨qualifiers⟩ ++ type.layers :=
  congrArg Encoding.mk
    (List.takeWhile_append_of_pos fun byte member => isLayer_of_isCvByte (all byte member))

theorem core_qualified (all : ∀ byte ∈ qualifiers, isCvByte byte = true) (type : Encoding) :
    (⟨qualifiers⟩ ++ type : Encoding).core = type.core :=
  congrArg Encoding.mk
    (List.dropWhile_append_of_pos fun byte member => isLayer_of_isCvByte (all byte member))

/-- Whether what is behind the qualifiers of a type is a function. -/
def namesFunction (type : Encoding) : Bool :=
  (⟨type.bytes.dropWhile isCvByte⟩ : Encoding).beginsWith 'F'

/-- Qualifiers in front of a type are lost, unless it is a function. -/
theorem stripCv_qualified (all : ∀ byte ∈ qualifiers, isCvByte byte = true) {type : Encoding}
    (value : type.namesFunction = false) :
    (⟨qualifiers⟩ ++ type : Encoding).stripCv = type.stripCv := by
  have bare : (qualifiers ++ type.bytes).dropWhile isCvByte = type.bytes.dropWhile isCvByte :=
    List.dropWhile_append_of_pos all
  unfold namesFunction at value
  unfold stripCv
  rw [bytes_append, bare]
  dsimp only
  rw [value]
  rfl

end Encoding

namespace Site

open Encoding

theorem append_assoc (first second third : Encoding) :
    first ++ second ++ third = first ++ (second ++ third) :=
  congrArg Encoding.mk (List.append_assoc ..)

/-- What a type stands for keeps its qualifiers. -/
theorem canonicalWithin_qualified {qualifiers : List UInt8}
    (all : ∀ byte ∈ qualifiers, isCvByte byte = true) (site : Site) (steps : Nat)
    (type : Encoding) :
    site.canonicalWithin steps (⟨qualifiers⟩ ++ type) =
      (site.canonicalWithin steps type).map (⟨qualifiers⟩ ++ ·) := by
  cases steps with
  | zero => rfl
  | succ steps =>
    unfold canonicalWithin
    rw [core_qualified all, layers_qualified all]
    dsimp only
    split
    · cases site.namedType? type.core with
      | error fault => rfl
      | ok named =>
        cases named with
        | none => rfl
        | some symbol =>
          rcases symbol with ⟨_, kind, target, _⟩
          cases kind with
          | typedefName aliased =>
            cases aliased with
            | some _ => rfl
            | none =>
              rw [Outcome.ok_bind, Outcome.ok_bind]
              dsimp only
              split
              · rfl
              · cases site.canonicalWithin steps target with
                | error _ => rfl
                | ok found => exact congrArg Except.ok (append_assoc ..)
          | classType _ | classTemplate _ | enumType =>
            exact congrArg Except.ok (append_assoc ..)
          | _ => rfl
    · rfl

/-- A type that a parameter has.  Only values are qualified, and the elements of an array have
no type that a definition names. -/
structure Passes (site : Site) (parameter : Encoding) : Prop where
  solid : parameter.stripCv ≠ builtin 'v' ∧ parameter.stripCv ≠ builtin 'e'
  qualified : parameter.stripCv ≠ parameter → parameter.stripCv.beginsWith 'R' = false ∧
    ∀ found, site.canonical parameter.stripCv = .ok found → found.namesFunction = false
  array : ∀ element, parameter.stripCv.element? = some element → element.core.isName = false

theorem Passes.isSolid {site : Site} {parameter : Encoding} (passes : site.Passes parameter) :
    parameter ≠ builtin 'v' ∧ parameter ≠ builtin 'e' := by
  constructor
  · rintro rfl
    exact passes.solid.1 rfl
  · rintro rfl
    exact passes.solid.2 rfl

/-- Two scopes from which the names in types mean the same. -/
structure ReadsAlike (left right : Site) : Prop where
  canonical : ∀ type, left.canonical type = right.canonical type
  isTypeParameter : ∀ type, left.isTypeParameter type = right.isTypeParameter type
  classScope? : ∀ type, left.classScope? type = right.classScope? type

end Site

namespace Encoding

theorem exists_of_beginsWith {type : Encoding} {c : Char} (begins : type.beginsWith c = true) :
    ∃ behind, type = ⟨code c :: behind⟩ := by
  rcases type with ⟨_ | ⟨first, behind⟩⟩
  · cases begins
  · exact ⟨behind, by rw [Option.some.inj (beq_iff_eq.mp begins)]⟩

theorem beginsWith_of_element? {type element : Encoding} (array : type.element? = some element) :
    type.beginsWith 'A' = true := by
  unfold element? at array
  split at array
  · assumption
  · cases array

end Encoding

namespace Conversion

open Encoding

variable {sites : Sites} {parameter : Encoding}

theorem withoutReference_of_beginsWith {type : Encoding} (none : type.beginsWith 'R' = false) :
    type.withoutReference = type := by
  unfold withoutReference
  rw [none]
  rfl

/-- Qualifiers of a parameter do not matter to the argument. -/
theorem find?_stripCv (passes : sites.parameter.Passes parameter) (argument : Option Encoding) :
    find? sites argument parameter.stripCv = find? sites argument parameter := by
  by_cases same : parameter.stripCv = parameter
  · rw [same]
  rcases passes.qualified same with ⟨noReference, value⟩
  rcases exists_qualifiers parameter with ⟨qualifiers, all, split⟩
  have noReferenceThere : parameter.beginsWith 'R' = false := by
    cases qualifiers with
    | nil => exact absurd split.symm same
    | cons first rest =>
      have qualifier := all first (List.mem_cons_self ..)
      have other : first ≠ code 'R' := by
        rintro rfl
        exact absurd qualifier (by decide)
      rw [split]
      exact beq_eq_false_iff_ne.mpr fun begins => other (Option.some.inj begins)
  cases argument with
  | none => rfl
  | some argument =>
    unfold find?
    dsimp only
    rw [withoutReference_of_beginsWith noReference,
      withoutReference_of_beginsWith noReferenceThere]
    unfold Site.canonical at value ⊢
    conv => rhs; rw [split, Site.canonicalWithin_qualified all]
    cases read : sites.parameter.canonicalWithin aliasLimit parameter.stripCv with
    | error fault => rfl
    | ok found =>
      rw [Except.map, Outcome.ok_bind, Outcome.ok_bind, stripCv_qualified all (value found read)]

/-- A type without a name in it stands for itself. -/
theorem canonical_of_core (site : Site) {type : Encoding} (plain : type.core.isName = false) :
    site.canonical type = .ok type ∧ site.isTypeParameter type = .ok false := by
  have noSimpleName : type.core.isSimpleName = false := by
    unfold isName at plain
    exact (Bool.or_eq_false_iff.mp (Bool.or_eq_false_iff.mp plain).1).1
  unfold Site.canonical aliasLimit Site.canonicalWithin Site.isTypeParameter
  dsimp only
  rw [plain, noSimpleName]
  exact ⟨rfl, rfl⟩

/-- A parameter without a name in its type, once the argument has its canonical type. -/
theorem find?_of_core (type : Encoding) (noReference : type.beginsWith 'R' = false)
    (value : type.stripCv = type) (plain : type.core.isName = false) (argument : Encoding) :
    find? sites (some argument) type =
      sites.argument.canonical argument.decayed >>= (ofCanonical sites · type) := by
  rcases canonical_of_core sites.parameter plain with ⟨canonical, known⟩
  unfold find?
  dsimp only
  rw [withoutReference_of_beginsWith noReference, canonical, Outcome.ok_bind, value, known,
    Outcome.ok_bind]
  rfl

/-- Two types with the same target take the same arguments. -/
theorem ofCanonical_of_target {left right element : Encoding} (first : left.target? = some element)
    (second : right.target? = some element) (argument : Encoding) :
    ofCanonical sites argument left = ofCanonical sites argument right := by
  have itself : ∀ {type other : Encoding}, type.target? = some element →
      other.target? = some element → ofCanonical sites type other = .ok (some .exact) := by
    intro type other own target
    unfold ofCanonical
    rw [own, target]
    dsimp only [ofPointers]
    split
    · rfl
    · rw [if_pos rfl]
      rfl
  by_cases isLeft : argument = left
  · rw [isLeft, itself first first, itself first second]
  by_cases isRight : argument = right
  · rw [isRight, itself second first, itself second second]
  unfold ofCanonical
  rw [if_neg isLeft, if_neg isRight, first, second]
  cases argument.target? with
  | none => rfl
  | some _ => rfl

/-- An array parameter takes what a pointer to its elements takes. -/
theorem find?_element {type element : Encoding} (array : type.element? = some element)
    (plain : element.core.isName = false) (argument : Option Encoding) :
    find? sites argument element.pointerTo = find? sites argument type := by
  have pointer : element.pointerTo.target? = some element := rfl
  have target : type.target? = some element := by
    rcases exists_of_beginsWith (beginsWith_of_element? array) with ⟨behind, rfl⟩
    exact array
  cases argument with
  | none => rfl
  | some argument =>
    rcases exists_of_beginsWith (beginsWith_of_element? array) with ⟨behind, rfl⟩
    rw [find?_of_core element.pointerTo rfl rfl plain,
      find?_of_core ⟨code 'A' :: behind⟩ rfl rfl rfl]
    congr 1
    funext found
    exact ofCanonical_of_target pointer target found

theorem find?_adjusted (sites : Sites) (passes : sites.parameter.Passes parameter)
    (argument : Option Encoding) :
    find? sites argument parameter.adjusted = find? sites argument parameter := by
  unfold adjusted
  split
  · next element array =>
    rw [find?_element array (passes.array element array), find?_stripCv passes]
  · exact find?_stripCv passes argument

/-- What a parameter takes depends on its scope only by what the names in types mean there. -/
theorem find?_readsAlike {left right site : Site} (alike : left.ReadsAlike right)
    (argument : Option Encoding) (type : Encoding) :
    find? ⟨site, left⟩ argument type = find? ⟨site, right⟩ argument type := by
  simp only [find?, ofCanonical, ofPointers, ofValues, ofClasses, derives, ofUnknown,
    Site.isUnknown, alike.canonical, alike.isTypeParameter, alike.classScope?]

end Conversion

namespace Candidate

open Encoding Call

/-- The conversions to two lists of parameters are the same, if each parameter takes what its
counterpart takes. -/
theorem conversions?_eq {left right : Conversion.Sites} {first second : List Encoding}
    (alike : List.Forall₂ (fun own other => ∀ argument,
      Conversion.find? left argument own = Conversion.find? right argument other) first second)
    (arguments : List (Option Encoding)) :
    conversions? left arguments first = conversions? right arguments second := by
  induction arguments generalizing first second with
  | nil => rfl
  | cons argument arguments ih =>
    cases alike with
    | nil =>
      unfold conversions?
      rw [ih .nil]
    | cons same rest =>
      unfold conversions?
      rw [same argument, ih rest]

/-- The site from which the names in the parameters of a function are looked up. -/
def parameterSite (site : Site) (symbol : Symbol) : Site :=
  { site with scope := (site.table.scopeOfNode? symbol.node).getD symbol.scope }

theorem namedParameters_of_solid {parameters : List Encoding} {ellipsis : Bool}
    (solid : ∀ parameter ∈ parameters, parameter ≠ builtin 'v' ∧ parameter ≠ builtin 'e') :
    namedParameters (readParameters parameters ellipsis ++ if ellipsis then [builtin 'e'] else []) =
      parameters := by
  have read : readParameters parameters ellipsis = parameters := by
    unfold readParameters
    split
    · next single =>
      rw [single.1] at solid
      exact absurd rfl (solid _ (List.mem_singleton_self _)).1
    · rfl
  rw [read]
  unfold namedParameters
  cases ellipsis with
  | true => simp
  | false =>
    rw [if_neg (by decide : ¬ false = true), List.append_nil, if_neg fun last => ?_]
    exact absurd rfl (solid _ (List.mem_of_getLast? last)).2

/-- A candidate is the function with the conversions to the parameters in its type. -/
theorem of_ofFunction?_function {site : Site} {arguments : List (Option Encoding)} {id : SymbolId}
    {symbol : Symbol} {signature : Signature} {defined ellipsis : Bool}
    {parameters : List Encoding} {result : Encoding} {candidate : Candidate}
    (read : site.table.symbol id = .ok symbol) (kind : symbol.kind = .function signature defined)
    (type : symbol.type = function parameters ellipsis result)
    (complete : ∀ parameter ∈ parameters, Complete parameter) (target : Complete result)
    (solid : ∀ parameter ∈ parameters, parameter ≠ builtin 'v' ∧ parameter ≠ builtin 'e')
    (takes : ofFunction? site arguments id = .ok (some candidate)) :
    candidate.id = id ∧ candidate.isTemplate = false ∧
      conversions? ⟨site, parameterSite site symbol⟩ arguments parameters =
        .ok (some candidate.conversions) := by
  have parts : symbol.type.functionParts? = .ok (some
      (readParameters parameters ellipsis ++ if ellipsis then [builtin 'e'] else [], result)) := by
    unfold functionParts?
    rw [type, functionParts_of_complete ellipsis complete target]
    rfl
  unfold ofFunction? at takes
  rw [read, Outcome.ok_bind, kind] at takes
  dsimp only [SymbolKind.signature?] at takes
  rw [parts, Outcome.ok_bind] at takes
  dsimp only at takes
  rw [namedParameters_of_solid solid] at takes
  split at takes
  · rcases Outcome.of_bind takes with ⟨converted, converts, same⟩
    cases converted with
    | none => cases same
    | some found =>
      cases same
      exact ⟨rfl, rfl, converts⟩
  · cases takes

/-! ## A tie -/

/-- The candidates are what the functions are to the arguments. -/
theorem mem_viable_iff {site : Site} {arguments : List (Option Encoding)}
    {functions : List SymbolId} {candidates : List Candidate} {candidate : Candidate}
    (asked : functions.filterMapM (ofFunction? site arguments) = .ok candidates) :
    candidate ∈ candidates ↔
      ∃ id ∈ functions, ofFunction? site arguments id = .ok (some candidate) := by
  induction functions generalizing candidates with
  | nil =>
    cases asked
    simp
  | cons first rest ih =>
    rw [List.filterMapM_cons] at asked
    rcases Outcome.of_bind asked with ⟨taken, takes, asked⟩
    rw [List.exists_mem_cons_iff, takes]
    cases taken with
    | none => simpa using ih asked
    | some own =>
      rcases Outcome.of_bind asked with ⟨others, askedBehind, same⟩
      cases same
      rw [List.mem_cons, ih askedBehind]
      simp [eq_comm]

theorem isBetterThan_congr {left right : Candidate}
    (conversions : left.conversions = right.conversions)
    (template : left.isTemplate = right.isTemplate) :
    left.isBetterThan right = right.isBetterThan right := by
  unfold isBetterThan paired
  rw [conversions, template]

/-- A candidate is not the best one, if another one has the same conversions. -/
theorem ne_of_best {candidates : List Candidate} {left right : Candidate} {id : SymbolId}
    (other : right ∈ candidates) (differ : left ≠ right)
    (conversions : left.conversions = right.conversions)
    (template : left.isTemplate = right.isTemplate)
    (only : ∀ candidate ∈ candidates, candidate.id = left.id → candidate = left)
    (chosen : best candidates = .ok id) : id ≠ left.id := by
  rintro rfl
  rcases exists_leads_of_best chosen with ⟨place, leads, same⟩
  have found : candidates[place] = left := only _ (List.getElem_mem place.isLt) same
  rcases List.getElem_of_mem other with ⟨index, inside, there⟩
  have elsewhere : (⟨index, inside⟩ : Fin candidates.length) ≠ place := by
    rintro rfl
    exact differ (found.symm.trans there)
  have better : candidates[place].isBetterThan candidates[index] = true := leads _ elsewhere
  rw [found, there, isBetterThan_congr conversions template, isBetterThan_irrefl] at better
  cases better

/-- Two functions that no call tells apart: where its arguments suit both, it chooses neither of
them, and if they are all there is, it is ambiguous. -/
structure Tie (site : Site) (first second : SymbolId) : Prop where
  neither : ∀ typeOf name call types functions left right id,
    (arguments call).mapM typeOf = .ok types → first ∈ functions → second ∈ functions →
    ofFunction? site types first = .ok (some left) →
    ofFunction? site types second = .ok (some right) →
    (amongFunctions site typeOf name call functions).run = .ok (.ok id) → id ≠ first ∧ id ≠ second
  ambiguous : ∀ typeOf name call types left right,
    (arguments call).mapM typeOf = .ok types →
    ofFunction? site types first = .ok (some left) →
    ofFunction? site types second = .ok (some right) →
    (amongFunctions site typeOf name call [first, second]).run =
      .ok (.error (.ambiguous name [first, second]))

theorem run_lift {α β : Type} (question : Outcome α) (next : α → Choice β) :
    ((question : Choice α) >>= next).run = question >>= fun value => (next value).run := by
  cases question with
  | error fault => rfl
  | ok value => rfl

/-- What a call makes of the functions that suit its arguments. -/
def chosenAmong (name : String) : List Candidate → Except CallError SymbolId
  | [] => .error (.noViable name)
  | [only] => .ok only.id
  | several => (best several).mapError (.ambiguous name)

theorem run_amongFunctions {site : Site} {typeOf : TypeOf} {name : String} {call : Node}
    {types : List (Option Encoding)} (known : (arguments call).mapM typeOf = .ok types)
    (functions : List SymbolId) :
    (amongFunctions site typeOf name call functions).run =
      (functions.filterMapM (ofFunction? site types)).map (chosenAmong name) := by
  unfold amongFunctions
  rw [run_lift, known, Outcome.ok_bind, run_lift]
  cases functions.filterMapM (ofFunction? site types) with
  | error fault => rfl
  | ok candidates =>
    rcases candidates with _ | ⟨only, _ | ⟨second, rest⟩⟩
    · rfl
    · rfl
    · rw [Outcome.ok_bind]
      dsimp only [Except.map, chosenAmong]
      cases best (only :: second :: rest) with
      | ok id => rfl
      | error unbeaten => rfl

/-- A function is not chosen beside another one with the same conversions. -/
theorem ne_of_chosenAmong {site : Site} {types : List (Option Encoding)} {functions : List SymbolId}
    {candidates : List Candidate} {left right : Candidate} {first second id : SymbolId}
    {name : String} (differ : first ≠ second)
    (asked : functions.filterMapM (ofFunction? site types) = .ok candidates)
    (firstIn : first ∈ functions) (secondIn : second ∈ functions)
    (takes : ofFunction? site types first = .ok (some left))
    (takesToo : ofFunction? site types second = .ok (some right))
    (conversions : left.conversions = right.conversions)
    (template : left.isTemplate = right.isTemplate)
    (done : chosenAmong name candidates = .ok id) : id ≠ first := by
  have leftIn : left ∈ candidates := (mem_viable_iff asked).mpr ⟨first, firstIn, takes⟩
  have rightIn : right ∈ candidates := (mem_viable_iff asked).mpr ⟨second, secondIn, takesToo⟩
  have leftId : left.id = first := (of_ofFunction? takes).1
  have apart : left ≠ right := by
    rintro rfl
    exact differ (leftId.symm.trans (of_ofFunction? takesToo).1)
  have only : ∀ candidate ∈ candidates, candidate.id = left.id → candidate = left := by
    intro candidate member same
    rcases (mem_viable_iff asked).mp member with ⟨asker, _, suits⟩
    have asker : asker = first := (of_ofFunction? suits).1.symm.trans (same.trans leftId)
    rw [asker, takes] at suits
    cases suits
    rfl
  rw [← leftId]
  rcases candidates with _ | ⟨single, _ | ⟨next, rest⟩⟩
  · cases leftIn
  · exact absurd ((List.mem_singleton.mp leftIn).trans (List.mem_singleton.mp rightIn).symm) apart
  · refine ne_of_best rightIn apart conversions template only ?_
    change (best (single :: next :: rest)).mapError _ = _ at done
    cases found : best (single :: next :: rest) with
    | ok best =>
      rw [found] at done
      cases done
      rfl
    | error unbeaten =>
      rw [found] at done
      cases done

/-- Functions between which the conversions of no arguments make a difference are tied. -/
theorem tie_of_conversions {site : Site} {first second : SymbolId} (differ : first ≠ second)
    (same : ∀ types left right, ofFunction? site types first = .ok (some left) →
      ofFunction? site types second = .ok (some right) →
      left.conversions = right.conversions ∧ left.isTemplate = right.isTemplate) :
    Tie site first second where
  neither typeOf name call types functions left right id known firstIn secondIn takes takesToo := by
    intro ran
    rcases same types left right takes takesToo with ⟨conversions, template⟩
    rw [run_amongFunctions known] at ran
    cases asked : functions.filterMapM (ofFunction? site types) with
    | error fault =>
      rw [asked] at ran
      cases ran
    | ok candidates =>
      rw [asked] at ran
      have done : chosenAmong name candidates = .ok id := Except.ok.inj ran
      constructor
      · exact ne_of_chosenAmong differ asked firstIn secondIn takes takesToo
          conversions template done
      · exact ne_of_chosenAmong differ.symm asked secondIn firstIn takesToo takes
          conversions.symm template.symm done
  ambiguous typeOf name call types left right known takes takesToo := by
    rcases same types left right takes takesToo with ⟨conversions, template⟩
    have there := isBetterThan_congr conversions template
    have back := isBetterThan_congr conversions.symm template.symm
    rw [isBetterThan_irrefl] at there back
    have asked : [first, second].filterMapM (ofFunction? site types) = .ok [left, right] := by
      rw [List.filterMapM_cons, takes, Outcome.ok_bind, List.filterMapM_cons, takesToo]
      rfl
    have unbeaten : best [left, right] = .error [first, second] := by
      rw [← (of_ofFunction? takes).1, ← (of_ofFunction? takesToo).1]
      simp [best, eachWithOthers, there, back]
    rw [run_amongFunctions known, asked]
    change Except.ok ((best [left, right]).mapError _) = _
    rw [unbeaten]
    rfl

/-- Parameters that mean the same to their callers are converted to alike. -/
theorem conversions?_adjusted {site left right : Site} {first second : List Encoding}
    (alike : left.ReadsAlike right) (same : first.map adjusted = second.map adjusted)
    (firstPass : ∀ parameter ∈ first, left.Passes parameter)
    (secondPass : ∀ parameter ∈ second, right.Passes parameter)
    (arguments : List (Option Encoding)) :
    conversions? ⟨site, left⟩ arguments first = conversions? ⟨site, right⟩ arguments second := by
  refine conversions?_eq ?_ arguments
  induction first generalizing second with
  | nil =>
    rw [List.map_eq_nil_iff.mp same.symm]
    exact .nil
  | cons own rest ih =>
    cases second with
    | nil => cases same
    | cons other others =>
      rw [List.map_cons, List.map_cons, List.cons.injEq] at same
      rcases List.forall_mem_cons.mp firstPass with ⟨passes, restPass⟩
      rcases List.forall_mem_cons.mp secondPass with ⟨passesToo, othersPass⟩
      refine .cons (fun argument => ?_) (ih same.2 restPass othersPass)
      calc Conversion.find? ⟨site, left⟩ argument own
          = Conversion.find? ⟨site, left⟩ argument own.adjusted :=
            (Conversion.find?_adjusted ⟨site, left⟩ passes argument).symm
        _ = Conversion.find? ⟨site, right⟩ argument other.adjusted := by
            rw [same.1, Conversion.find?_readsAlike alike]
        _ = Conversion.find? ⟨site, right⟩ argument other :=
            Conversion.find?_adjusted ⟨site, right⟩ passesToo argument

end Candidate

namespace Table

open Encoding Candidate

/-! ## Declaring a function twice -/

/-- What one declaration of a function adds to its name, its result and its place. -/
structure FunctionDeclaration where
  parameters : List Encoding
  signature : Signature
  defined : Bool
  node : Tree.NodeId
  span : Option Span

/-- The symbol that the declaration declares. -/
def FunctionDeclaration.symbol (declared : FunctionDeclaration) (name : Encoding) (scope : ScopeId)
    (ellipsis : Bool) (result : Encoding) : Symbol :=
  .ofDeclaration name (.function declared.signature declared.defined)
    (.function declared.parameters ellipsis result) scope declared.node declared.span

/-- A symbol that is a function of some type. -/
def HasFunction (table : Table) (id : SymbolId) (type : Encoding) : Prop :=
  ∃ symbol, table.symbol id = .ok symbol ∧ symbol.kind.family = .function ∧ symbol.type = type

variable {table after last : Table} {scope : ScopeId} {id first second : SymbolId}
  {type name result : Encoding} {ellipsis : Bool}

theorem HasFunction.grows (has : table.HasFunction id type) (grows : table.Grows after) :
    after.HasFunction id type := by
  rcases has with ⟨symbol, read, family, rfl⟩
  rcases grows.symbol id symbol read with ⟨later, readLater, into⟩
  exact ⟨later, readLater, into.resembles.1.symm.trans family, into.resembles.2.symm⟩

theorem exists_kind_of_family {kind : SymbolKind} (family : kind.family = .function) :
    ∃ signature defined, kind = .function signature defined := by
  cases kind with
  | function signature defined => exact ⟨signature, defined, rfl⟩
  | _ => cases family

/-- What merges with a function is a function of its type. -/
theorem resembles_of_relation {old new : Symbol} (merges : relation id old new = .merge)
    (family : new.kind.family = .function) : old.Resembles new := by
  rcases exists_kind_of_family family with ⟨newSignature, newDefined, newKind⟩
  have kinds := merges_of_relation merges
  rw [newKind] at kinds
  generalize same : old.kind = kind at kinds
  cases kinds with
  | functions once =>
    refine ⟨by rw [same, newKind]; rfl, ?_⟩
    by_contra differ
    unfold relation at merges
    rw [same, newKind] at merges
    dsimp only at merges
    rw [if_neg (by simpa using differ)] at merges
    cases merges

/-- A declared function is there. -/
theorem hasFunction_of_declare {declared : Symbol} (family : declared.kind.family = .function)
    (done : table.declare scope declared = .ok (after, .ok id)) :
    after.HasFunction id declared.type := by
  cases declares_of_declare done with
  | fresh found read judged =>
    refine ⟨declared, ?_, family, rfl⟩
    rw [symbol_modifyScope, symbol_withSymbol, if_pos rfl]
  | again found _ read judged =>
    rcases of_judge_again judged with ⟨_, old, readOld, merges⟩
    have alike := resembles_of_relation merges family
    refine ⟨merged old declared, ?_, ?_, ?_⟩
    · rw [symbol_modifySymbol, if_pos rfl, readOld]
      rfl
    · exact (resembles_merged old declared).1.symm.trans (alike.1.trans family)
    · exact (resembles_merged old declared).2.symm.trans alike.2

/-- A function of another type is another function. -/
theorem ne_of_declare {declared : Symbol} (family : declared.kind.family = .function)
    (has : table.HasFunction first type)
    (done : table.declare scope declared = .ok (after, .ok second))
    (differ : type ≠ declared.type) : second ≠ first := by
  rintro rfl
  rcases has.grows (declares_of_declare done).grows with ⟨symbol, read, _, rfl⟩
  rcases hasFunction_of_declare family done with ⟨again, readAgain, _, same⟩
  rw [read] at readAgain
  cases readAgain
  exact differ same

variable {found : Scope} {old declared : Symbol}

theorem verdict_of_unused (declared : Symbol) (read : table.scope scope = .ok found)
    (unused : found.named declared.name = []) : table.verdict scope declared = .ok .fresh := by
  unfold verdict
  rw [read, Outcome.ok_bind, unused]
  rfl

/-- A second declaration of a name, by another node, is judged by the first one alone. -/
theorem verdict_of_single (read : table.scope scope = .ok found)
    (single : found.named declared.name = [first]) (readOld : table.symbol first = .ok old)
    (other : declared.node ∉ old.declarations) :
    table.verdict scope declared = table.judge declared [first] := by
  rw [verdict_of_unseen declared read, single]
  exact single ▸ declaredBy?_eq_none_iff.mpr (List.forall_mem_singleton.mpr ⟨old, readOld, other⟩)

theorem judge_single (readOld : table.symbol first = .ok old) :
    (relation first old declared = .coexist → table.judge declared [first] = .ok .fresh) ∧
      (relation first old declared = .merge →
        table.judge declared [first] = .ok (.again first)) := by
  rw [judge_cons readOld]
  refine ⟨fun coexists => if_pos coexists, fun merges => ?_⟩
  rw [merges, if_neg (by decide)]
  rfl

variable {prototype definition : FunctionDeclaration}

theorem relation_functions (id : SymbolId) (name : Encoding) (scope : ScopeId) (ellipsis : Bool)
    (result : Encoding) (early late : FunctionDeclaration) :
    relation id (early.symbol name scope ellipsis result) (late.symbol name scope ellipsis result) =
      if function early.parameters ellipsis result = function late.parameters ellipsis result
      then definedOnce early.defined late.defined else .coexist := by
  change (if _ == _ then _ else _) = _
  simp only [beq_iff_eq]
  rfl

/-- Of two declarations of a function in one scope, the second one is the first one again where
their types are the same, and otherwise stands beside it. -/
theorem declare_functions (ellipsis : Bool) (result : Encoding)
    (read : table.scope scope = .ok found) (unused : found.named name = [])
    (nodes : prototype.node ≠ definition.node) (once : prototype.defined = false) :
    ∃ after first,
      table.declare scope (prototype.symbol name scope ellipsis result) = .ok (after, .ok first) ∧
      ∃ last second entered,
      after.declare scope (definition.symbol name scope ellipsis result) =
        .ok (last, .ok second) ∧
      last.scope scope = .ok entered ∧
      (function prototype.parameters ellipsis result =
          function definition.parameters ellipsis result →
        second = first ∧ entered.named name = [first]) ∧
      (function prototype.parameters ellipsis result ≠
          function definition.parameters ellipsis result →
        second ≠ first ∧ entered.named name = [first, second]) := by
  generalize early : prototype.symbol name scope ellipsis result = old
  generalize late : definition.symbol name scope ellipsis result = new
  have oldName : old.name = name := by rw [← early]; rfl
  have newName : new.name = name := by rw [← late]; rfl
  have oldNodes : new.node ∉ old.declarations := by
    rw [← early, ← late]
    exact fun member => nodes (List.mem_singleton.mp member).symm
  have related :=
    relation_functions table.nextSymbol name scope ellipsis result prototype definition
  rw [early, late, once] at related
  have entered := scope_enter read old
  have readOld := symbol_enter table scope old
  have named : (found.bind old.name table.nextSymbol).named name = [table.nextSymbol] := by
    rw [Scope.named_bind, if_pos oldName, oldName, unused]
    rfl
  have judged := verdict_of_single entered (newName ▸ named) readOld oldNodes
  have declaredFirst := declare_of_fresh read (verdict_of_unused old read (oldName ▸ unused))
  refine ⟨_, _, declaredFirst, ?_⟩
  by_cases same : function prototype.parameters ellipsis result =
      function definition.parameters ellipsis result
  · rw [if_pos same] at related
    have again := judged.trans ((judge_single readOld).2 related)
    refine ⟨(table.enter scope old).modifySymbol table.nextSymbol (merged · new), table.nextSymbol,
      _, ?_, entered, fun _ => ⟨rfl, named⟩, fun differ => absurd same differ⟩
    unfold declare
    rw [again]
    rfl
  · rw [if_neg same] at related
    have fresh := judged.trans ((judge_single readOld).1 related)
    have unlike : (table.enter scope old).nextSymbol ≠ table.nextSymbol :=
      (ne_nextSymbol (hasSymbol_of_symbol readOld)).symm
    refine ⟨_, _, _, declare_of_fresh entered fresh, scope_enter entered new,
      fun equal => absurd equal same, fun _ => ⟨unlike, ?_⟩⟩
    rw [Scope.named_bind, if_pos newName, newName, named, Region.including,
      if_neg (mt List.mem_singleton.mp unlike)]
    rfl

/-- Two functions of a table whose lists mean the same to a caller are tied. -/
theorem tie_of_hasFunction {site : Site} {left right : List Encoding} {earlier later : Symbol}
    (differ : second ≠ first)
    (has : site.table.HasFunction first (function left ellipsis result))
    (hasToo : site.table.HasFunction second (function right ellipsis result))
    (complete : ∀ parameter ∈ left, Complete parameter)
    (completeToo : ∀ parameter ∈ right, Complete parameter) (target : Complete result)
    (readEarlier : site.table.symbol first = .ok earlier)
    (readLater : site.table.symbol second = .ok later)
    (alike : (parameterSite site earlier).ReadsAlike (parameterSite site later))
    (pass : ∀ parameter ∈ left, (parameterSite site earlier).Passes parameter)
    (passToo : ∀ parameter ∈ right, (parameterSite site later).Passes parameter)
    (same : left.map adjusted = right.map adjusted) : Tie site first second := by
  refine tie_of_conversions differ.symm fun types own other takes takesToo => ?_
  rcases has with ⟨symbol, read, family, type⟩
  rcases hasToo with ⟨symbolToo, readToo, familyToo, typeToo⟩
  rw [readEarlier] at read
  rw [readLater] at readToo
  cases read
  cases readToo
  rcases exists_kind_of_family family with ⟨signature, defined, kind⟩
  rcases exists_kind_of_family familyToo with ⟨signatureToo, definedToo, kindToo⟩
  rcases of_ofFunction?_function readEarlier kind type complete target
    (fun parameter member => (pass parameter member).isSolid) takes with ⟨_, plain, converts⟩
  rcases of_ofFunction?_function readLater kindToo typeToo completeToo target
    (fun parameter member => (passToo parameter member).isSolid) takesToo with
    ⟨_, plainToo, convertsToo⟩
  rw [conversions?_adjusted alike same pass passToo, convertsToo] at converts
  exact ⟨(Option.some.inj (Except.ok.inj converts)).symm, plain.trans plainToo.symm⟩

/-- Two declarations of a function in one scope, the second of which defines it.  They are one
function exactly where their lists read the same.  Otherwise they are two, whatever has happened
in between, and where the lists mean the same to a caller, no call from anywhere tells them apart
later on. -/
theorem functions_of_redeclaration (prototype definition : FunctionDeclaration)
    (name result : Encoding) (ellipsis : Bool) (read : table.scope scope = .ok found)
    (unused : found.named name = []) (nodes : prototype.node ≠ definition.node)
    (once : prototype.defined = false)
    (complete : ∀ parameter ∈ prototype.parameters, Complete parameter)
    (completeToo : ∀ parameter ∈ definition.parameters, Complete parameter)
    (target : Complete result) :
    ∃ after first,
      table.declare scope (prototype.symbol name scope ellipsis result) = .ok (after, .ok first) ∧
      (∃ last second entered,
        after.declare scope (definition.symbol name scope ellipsis result) =
          .ok (last, .ok second) ∧
        last.scope scope = .ok entered ∧
        (second = first ↔ readParameters prototype.parameters ellipsis =
          readParameters definition.parameters ellipsis) ∧
        entered.named name = if second = first then [first] else [first, second]) ∧
      ∀ middle last second, after.Grows middle →
        middle.declare scope (definition.symbol name scope ellipsis result) =
          .ok (last, .ok second) →
        readParameters prototype.parameters ellipsis ≠
          readParameters definition.parameters ellipsis →
        second ≠ first ∧ ∀ site earlier later, last.Grows site.table →
          site.table.symbol first = .ok earlier → site.table.symbol second = .ok later →
          (parameterSite site earlier).ReadsAlike (parameterSite site later) →
          (∀ parameter ∈ prototype.parameters, (parameterSite site earlier).Passes parameter) →
          (∀ parameter ∈ definition.parameters, (parameterSite site later).Passes parameter) →
          prototype.parameters.map adjusted = definition.parameters.map adjusted →
          Tie site first second := by
  have lists := function_eq_iff ellipsis complete completeToo target
  rcases declare_functions ellipsis result read unused nodes once with
    ⟨after, first, declared, last, second, entered, defined, readEntered, merged, apart⟩
  refine ⟨after, first, declared, ⟨last, second, entered, defined, readEntered, ?_, ?_⟩, ?_⟩
  · rw [← lists]
    refine ⟨fun same => ?_, fun same => (merged same).1⟩
    by_contra differ
    exact (apart differ).1 same
  · by_cases same : function prototype.parameters ellipsis result =
        function definition.parameters ellipsis result
    · rw [if_pos (merged same).1, (merged same).2]
    · rw [if_neg (apart same).1, (apart same).2]
  · intro middle last second grows defined differ
    have has := (hasFunction_of_declare rfl declared).grows grows
    have other : second ≠ first :=
      ne_of_declare rfl has defined fun same => differ (lists.mp same)
    refine ⟨other, ?_⟩
    intro site earlier later growsOn readEarlier readLater alike pass passToo same
    have still := (has.grows (declares_of_declare defined).grows).grows growsOn
    have stillToo := (hasFunction_of_declare rfl defined).grows growsOn
    exact tie_of_hasFunction other still stillToo complete completeToo target readEarlier readLater
      alike pass passToo same

/-- A function of an `int`, declared by `void f(int)`. -/
def plainPrototype : FunctionDeclaration := ⟨[builtin 'i'], ⟨1, 0, false⟩, false, 1, none⟩

/-- The same defined by `void f(const int) {}`. -/
def constDefinition : FunctionDeclaration := ⟨[(builtin 'i').constOf], ⟨1, 0, false⟩, true, 2, none⟩

/-- The symbol of such a declaration at file level. -/
def FunctionDeclaration.outside (declared : FunctionDeclaration) : Symbol :=
  declared.symbol (simpleName "f") global false (builtin 'v')

theorem passes_of_int (site : Site) {type : Encoding} (bare : type.stripCv = builtin 'i') :
    site.Passes type where
  solid := bare ▸ by decide
  qualified _ := by
    refine ⟨bare ▸ by decide, fun found read => ?_⟩
    rw [bare, (Conversion.canonical_of_core site (by decide)).1] at read
    cases read
    decide
  array element holds := by
    rw [bare] at holds
    cases holds

/-- The two are two functions, and a call of `f` with one argument is ambiguous. -/
theorem functions_of_redeclaration_const :
    ∃ after first last second,
      initial.declare global plainPrototype.outside = .ok (after, .ok first) ∧
      after.declare global constDefinition.outside = .ok (last, .ok second) ∧
      second ≠ first ∧ Tie ⟨last, global⟩ first second := by
  have int : Complete (builtin 'i') := .builtin (by decide)
  have read : initial.scope global = .ok (.ofRegion (.namespaceBody .empty [] []) none) := rfl
  rcases functions_of_redeclaration plainPrototype constDefinition (simpleName "f") (builtin 'v')
    false read rfl (by decide) rfl (List.forall_mem_singleton.mpr int)
    (List.forall_mem_singleton.mpr (.modified (by decide) int)) (.builtin (by decide)) with
    ⟨after, first, declared, ⟨last, second, entered, defined, _, _, _⟩, general⟩
  refine ⟨after, first, last, second, declared, defined, ?_⟩
  rcases general after last second (.refl after) defined (by decide) with ⟨apart, tied⟩
  have entersFirst := declare_of_fresh read (verdict_of_unused plainPrototype.outside read rfl)
  have fresh : (initial.enter global plainPrototype.outside).verdict global
    constDefinition.outside = .ok .fresh := by decide +kernel
  have entersSecond := declare_of_fresh (scope_enter read _) fresh
  cases declared.symm.trans entersFirst
  cases defined.symm.trans entersSecond
  have alike (site : Site) : site.ReadsAlike site := ⟨fun _ => rfl, fun _ => rfl, fun _ => rfl⟩
  refine ⟨apart, tied ⟨_, global⟩ _ _ (.refl _) rfl rfl (alike _) ?_ ?_ rfl⟩
  · exact List.forall_mem_singleton.mpr (passes_of_int _ (by decide))
  · exact List.forall_mem_singleton.mpr (passes_of_int _ (by decide))

end Table
end CppNames
