import CppNames.Proofs.Encoding.Spelled

namespace CppNames
namespace Encoding

/-!
# Complete encodings

`Complete` holds of what the constructors build from complete parts, as long as every count
and length can be told.  Such an encoding marks its own end: whatever stands around it, reading
at its front stops exactly behind it.  So lists of complete encodings need no separators, and
taking a name or type apart gives the parts it was built from.  The one exception is part of
the format: a parameter list that holds a single `void` is an empty one.

What can be told apart is known by its bytes.  Only where a template-id has more packed arguments
than a length byte can tell, the rest of them is cut off, and template-ids that differ there are
equal.
-/

/-- Encodings built from builtin types, names and complete parts. -/
inductive Complete : Encoding → Prop where
  | builtin {c : Char} : c ∈ "bcwisljfdrve?*".toList → Complete (.builtin c)
  | simpleName (name : String) : Complete (.simpleName name)
  | modified {c : Char} {target : Encoding} : c ∈ "SUCVPR".toList → Complete target →
    Complete (.builtin c ++ target)
  | array {digits : List Char} {element : Encoding} : (∀ digit ∈ digits, digit.isDigit = true) →
    Complete element → Complete (.builtin 'A' ++ ⟨digits.map code⟩ ++ .builtin '_' ++ element)
  | memberPointer {owner member : Encoding} : Complete owner → Complete member →
    Complete (.builtin 'M' ++ owner ++ member)
  | function {parameters : List Encoding} {result : Encoding} (ellipsis : Bool) :
    (∀ parameter ∈ parameters, Complete parameter) → Complete result →
    Complete (.function parameters ellipsis result)
  | qualified {components : List Encoding} : 2 ≤ components.length → components.length ≤ limit →
    (∀ component ∈ components, Complete component) → Complete (.qualified components)
  | templateId {arguments : List Encoding} (name : String) :
    (∀ argument ∈ arguments, Complete argument) → (concat arguments).bytes.length ≤ limit →
    Complete (.templateId name arguments)

variable {loose : List UInt8 → Prop} {parts : List Encoding}

/-! ## Counts and lengths -/

theorem lengthOf?_lengthByte (length : Nat) :
    lengthOf? (lengthByte length) = some (min length limit) := by
  have small : (0x80 + min length limit) % 256 = 0x80 + min length limit :=
    Nat.mod_eq_of_lt (by unfold limit; omega)
  have told : (lengthByte length).toNat = 0x80 + min length limit := by
    unfold lengthByte
    rw [Nat.toUInt8, UInt8.toNat_ofNat']
    exact small
  have high : (0x80 : UInt8) ≤ lengthByte length := by
    rw [UInt8.le_iff_toNat_le, told]
    exact Nat.le_add_right _ _
  unfold lengthOf?
  rw [if_pos high, told, Nat.add_sub_cancel_left]

theorem lengthOf?_lengthByte_of_le {length : Nat} (told : length ≤ limit) :
    lengthOf? (lengthByte length) = some length := by
  rw [lengthOf?_lengthByte, Nat.min_eq_left told]

theorem ofByte_of_lengthOf? {byte : UInt8} {length : Nat} (told : lengthOf? byte = some length) :
    Mark.ofByte byte = .name length := by
  unfold Mark.ofByte
  rw [told]

/-! ## Bytes of what is built -/

theorem bytes_append (front back : Encoding) : (front ++ back).bytes = front.bytes ++ back.bytes :=
  rfl

theorem bytes_concat (parts : List Encoding) :
    (concat parts).bytes = (parts.map Encoding.bytes).flatten := rfl

theorem bytes_counted {bytes : List UInt8} (told : bytes.length ≤ limit) :
    (counted bytes).bytes = lengthByte bytes.length :: bytes := by
  unfold counted
  rw [List.take_of_length_le told]

theorem bytes_qualified (several : 2 ≤ parts.length) :
    (qualified parts).bytes = code 'Q' :: lengthByte parts.length :: (concat parts).bytes := by
  rcases parts with _ | ⟨first, _ | ⟨second, rest⟩⟩
  · exact absurd several (by decide)
  · exact absurd several (by simp)
  · rfl

theorem bytes_templateId {name : String} (told : (concat parts).bytes.length ≤ limit) :
    (templateId name parts).bytes = code 'T' :: ((simpleName name).bytes ++
      lengthByte (concat parts).bytes.length :: (concat parts).bytes) := by
  unfold templateId
  rw [bytes_append, bytes_append, bytes_counted told]
  rfl

/-- The parameters as they are written: none are one `void`, and an ellipsis is the last. -/
def writtenParameters (parameters : List Encoding) (ellipsis : Bool) : List Encoding :=
  (if parameters.isEmpty && !ellipsis then [builtin 'v'] else parameters) ++
    if ellipsis then [builtin 'e'] else []

theorem bytes_function (parameters : List Encoding) (ellipsis : Bool) (result : Encoding) :
    (function parameters ellipsis result).bytes = code 'F' ::
      ((concat (writtenParameters parameters ellipsis)).bytes ++ code '_' :: result.bytes) := by
  have written : (concat (writtenParameters parameters ellipsis)).bytes =
      (if parameters.isEmpty && !ellipsis then builtin 'v' else concat parameters).bytes ++
        (if ellipsis then builtin 'e' else empty).bytes := by
    unfold writtenParameters
    rw [bytes_concat, List.map_append, List.flatten_append]
    congr 1
    · split
      · rfl
      · rfl
    · split
      · rfl
      · rfl
  unfold function
  rw [bytes_append, bytes_append, bytes_append, bytes_append, written, List.append_assoc]
  rfl

/-! ## Complete encodings are spelled out -/

theorem notMem_digits {digits : List Char} (plain : ∀ digit ∈ digits, digit.isDigit = true) :
    code '_' ∉ digits.map code := by
  intro member
  rcases List.mem_map.mp member with ⟨digit, inside, same⟩
  have range : 48 ≤ digit.toNat ∧ digit.toNat ≤ 57 :=
    Char.isDigit_iff_toNat.mp (plain digit inside)
  have bytes := congrArg UInt8.toNat same
  have underscore : (code '_').toNat = 95 := by decide
  unfold code at bytes underscore
  rw [underscore, Nat.toUInt8, UInt8.toNat_ofNat'] at bytes
  omega

theorem ofByte_builtin : ∀ c ∈ "bcwisljfdrve?*".toList,
    Mark.ofByte (code c) = .builtin ((builtinText? c).getD "") := by
  have all : ("bcwisljfdrve?*".toList.all fun c =>
      decide (Mark.ofByte (code c) = .builtin ((builtinText? c).getD ""))) = true := by decide
  simpa only [List.all_eq_true, decide_eq_true_eq] using all

theorem ofByte_modifier : ∀ c ∈ "SUCVPR".toList, Mark.ofByte (code c) = .modifier := by
  have all : ("SUCVPR".toList.all fun c => decide (Mark.ofByte (code c) = .modifier)) = true := by
    decide
  simpa only [List.all_eq_true, decide_eq_true_eq] using all

/-- The bytes of a simple name, however long it is. -/
theorem spelled_simpleName (name : String) : Spelled loose (simpleName name).bytes := by
  apply Spelled.name (ofByte_of_lengthOf? _)
  rw [lengthOf?_lengthByte, List.length_take, Nat.min_comm]

theorem spelled_builtin {c : Char} (listed : c ∈ "bcwisljfdrve?*".toList) :
    Spelled loose (builtin c).bytes :=
  .builtin (ofByte_builtin c listed)

/-- What holds of all parts holds of their bytes. -/
theorem spelled_bytes (spelled : ∀ part ∈ parts, Spelled loose part.bytes) :
    ∀ bytes ∈ parts.map Encoding.bytes, Spelled loose bytes := by
  intro bytes member
  rcases List.mem_map.mp member with ⟨part, inside, rfl⟩
  exact spelled part inside

theorem spelled_writtenParameters {ellipsis : Bool}
    (spelled : ∀ part ∈ parts, Spelled loose part.bytes) :
    ∀ part ∈ writtenParameters parts ellipsis, Spelled loose part.bytes := by
  intro part member
  unfold writtenParameters at member
  rcases List.mem_append.mp member with front | dots
  · split at front
    · rw [List.mem_singleton.mp front]
      exact spelled_builtin (by decide)
    · exact spelled part front
  · split at dots
    · rw [List.mem_singleton.mp dots]
      exact spelled_builtin (by decide)
    · exact absurd dots List.not_mem_nil

/-- A complete encoding is spelled out, with nothing behind packed arguments. -/
theorem Complete.spelled {encoding : Encoding} (complete : Complete encoding) :
    Spelled (· = []) encoding.bytes := by
  induction complete with
  | builtin listed => exact spelled_builtin listed
  | simpleName name => exact spelled_simpleName name
  | modified listed _ target => exact .modifier (ofByte_modifier _ listed) target
  | @array digits element plain _ target =>
    have array : Spelled (· = []) (code 'A' :: (digits.map code ++ code '_' :: element.bytes)) :=
      .array (by decide) (notMem_digits plain) target
    rw [bytes_append, bytes_append, bytes_append, List.append_assoc, List.append_assoc]
    exact array
  | @memberPointer ownerType memberType _ _ owner member =>
    have pointer : Spelled (· = []) (code 'M' :: (ownerType.bytes ++ memberType.bytes)) :=
      .memberPointer (by decide) owner member
    exact pointer
  | @function parameters result ellipsis _ _ spelled target =>
    rw [bytes_function, bytes_concat]
    exact .function (by decide) (spelled_bytes (spelled_writtenParameters spelled)) target
  | @qualified components several told _ spelled =>
    rw [bytes_qualified several, bytes_concat]
    apply Spelled.qualified (by decide) _ (spelled_bytes spelled)
    rw [lengthOf?_lengthByte_of_le told, List.length_map]
  | @templateId arguments name _ told spelled =>
    rw [bytes_templateId told]
    have packed : lengthOf? (lengthByte (concat arguments).bytes.length) =
        some ((arguments.map Encoding.bytes).flatten ++ []).length := by
      rw [lengthOf?_lengthByte_of_le told, bytes_concat, List.append_nil]
    have mark : Mark.ofByte (code 'T') = .template := by decide
    have template := Spelled.template mark (spelled_simpleName name) packed (spelled_bytes spelled)
      (rfl : ([] : List UInt8) = [])
    rw [List.append_nil] at template
    exact template

/-- The length of an array is written in digits, or left out. -/
theorem isDigit_of_mem_length (length : Option Nat) :
    ∀ digit ∈ length.elim [] fun n => (toString n).toList, digit.isDigit = true := by
  cases length with
  | none => exact fun _ member => absurd member List.not_mem_nil
  | some n =>
    intro digit member
    change digit ∈ n.repr.toList at member
    rw [Nat.toList_repr] at member
    exact Nat.isDigit_of_mem_toDigits (by decide) (Nat.le_refl 10) member

/-! ## Taking encodings apart -/

theorem front_append {part : Encoding} (spelled : Spelled loose part.bytes)
    (behind : List UInt8) : front (part.bytes ++ behind) = .ok (part, behind) := by
  unfold front
  rw [spelled.extent_append]
  simp only [List.length_append, Nat.le_add_right, if_true, List.take_left, List.drop_left]

/-- Types or names one behind the other are told apart, up to a number of them or to something
that cannot be read. -/
theorem fronts_append (spelled : ∀ part ∈ parts, Spelled loose part.bytes) {count : Nat}
    {rest : List UInt8}
    (ends : parts.length = count ∨ parts.length ≤ count ∧ extent rest = none) :
    fronts count ((concat parts).bytes ++ rest) = .ok parts := by
  induction parts generalizing count with
  | nil =>
    cases count with
    | zero => rfl
    | succ count =>
      have unread : extent rest = none := (ends.resolve_left (Nat.zero_ne_add_one count)).2
      have malformed : front rest = .error .malformed := by
        unfold front
        rw [unread]
      rw [bytes_concat, List.map_nil, List.flatten_nil, List.nil_append, fronts, malformed]
  | cons first others ih =>
    rcases List.forall_mem_cons.mp spelled with ⟨firstSpelled, othersSpelled⟩
    cases count with
    | zero => simp at ends
    | succ count =>
      have endsBehind : others.length = count ∨ others.length ≤ count ∧ extent rest = none := by
        simpa using ends
      have back := ih othersSpelled endsBehind
      rw [bytes_concat] at back ⊢
      rw [List.map_cons, List.flatten_cons, List.append_assoc, fronts, front_append firstSpelled]
      exact congrArg (Except.map (first :: ·)) back

theorem fronts_concat (spelled : ∀ part ∈ parts, Spelled loose part.bytes) :
    fronts parts.length (concat parts).bytes = .ok parts := by
  have all : fronts parts.length ((concat parts).bytes ++ []) = .ok parts :=
    fronts_append spelled (.inl rfl)
  rwa [List.append_nil] at all

theorem length_le_bytes_concat (spelled : ∀ part ∈ parts, Spelled loose part.bytes) :
    parts.length ≤ (concat parts).bytes.length := by
  have bound := length_le_flatten (spelled_bytes spelled)
  rwa [List.length_map] at bound

theorem splitTypes_concat (spelled : ∀ part ∈ parts, Spelled loose part.bytes) :
    splitTypes (concat parts).bytes = .ok parts := by
  have all : fronts (concat parts).bytes.length ((concat parts).bytes ++ []) = .ok parts :=
    fronts_append spelled (.inr ⟨length_le_bytes_concat spelled, rfl⟩)
  rwa [List.append_nil] at all

theorem names_qualified (several : 2 ≤ parts.length) (told : parts.length ≤ limit)
    (spelled : ∀ part ∈ parts, Spelled loose part.bytes) :
    (qualified parts).names = .ok parts := by
  have isQualified : (qualified parts).isQualified = true := by
    unfold Encoding.isQualified beginsWith
    rw [bytes_qualified several]
    rfl
  have counted : ((qualified parts).bytes[1]? >>= lengthOf?).getD 0 = parts.length := by
    rw [bytes_qualified several]
    change (lengthOf? (lengthByte parts.length)).getD 0 = _
    rw [lengthOf?_lengthByte_of_le told]
    rfl
  have components : (qualified parts).bytes.drop 2 = (concat parts).bytes := by
    rw [bytes_qualified several]
    rfl
  unfold names
  rw [if_pos isQualified, counted, components]
  exact fronts_concat spelled

theorem isTemplateId_templateId (name : String) (arguments : List Encoding) :
    (templateId name arguments).isTemplateId = true := rfl

theorem templateName_templateId (name : String) (told : (concat parts).bytes.length ≤ limit) :
    (templateId name parts).templateName = .ok (simpleName name) := by
  have spelled : Spelled (· = []) (simpleName name).bytes := spelled_simpleName name
  have named := front_append spelled
    (lengthByte (concat parts).bytes.length :: (concat parts).bytes)
  unfold templateName
  rw [if_pos (isTemplateId_templateId ..), bytes_templateId told, List.drop_succ_cons,
    List.drop_zero, named]

theorem templateArguments_templateId (name : String) (told : (concat parts).bytes.length ≤ limit)
    (spelled : ∀ part ∈ parts, Spelled loose part.bytes) :
    (templateId name parts).templateArguments = .ok parts := by
  have spelledName : Spelled (· = []) (simpleName name).bytes := spelled_simpleName name
  have named := spelledName.extent_append
    (lengthByte (concat parts).bytes.length :: (concat parts).bytes)
  have packed : announced (lengthByte (concat parts).bytes.length :: (concat parts).bytes) =
      (concat parts).bytes := by
    rw [announced, lengthOf?_lengthByte_of_le told]
    exact List.take_length
  unfold templateArguments
  rw [if_pos (isTemplateId_templateId ..), bytes_templateId told, List.drop_succ_cons,
    List.drop_zero]
  simp only [named, List.drop_left, packed]
  exact splitTypes_concat spelled

theorem parameterFronts_concat (spelled : ∀ part ∈ parts, Spelled loose part.bytes) {count : Nat}
    (enough : parts.length < count) (behind : List UInt8) :
    parameterFronts count ((concat parts).bytes ++ code '_' :: behind) = .ok (parts, behind) := by
  induction parts generalizing count with
  | nil =>
    cases count with
    | zero => exact absurd enough (Nat.not_lt_zero _)
    | succ count =>
      rw [bytes_concat, List.map_nil, List.flatten_nil, List.nil_append, parameterFronts,
        if_pos rfl]
  | cons first others ih =>
    rcases List.forall_mem_cons.mp spelled with ⟨firstSpelled, othersSpelled⟩
    cases count with
    | zero => exact absurd enough (Nat.not_lt_zero _)
    | succ count =>
      have back := ih othersSpelled (Nat.lt_of_succ_lt_succ enough)
      rcases firstSpelled.starts with ⟨byte, more, same, goesOn⟩
      have head := front_append firstSpelled ((concat others).bytes ++ code '_' :: behind)
      have whole : (concat (first :: others)).bytes ++ code '_' :: behind =
          byte :: (more ++ ((concat others).bytes ++ code '_' :: behind)) := by
        rw [bytes_concat, List.map_cons, List.flatten_cons, same, List.append_assoc]
        rfl
      rw [same, List.cons_append] at head
      rw [whole, parameterFronts, if_neg goesOn, head]
      change (parameterFronts count ((concat others).bytes ++ code '_' :: behind) >>= fun read =>
        Except.ok (first :: read.1, read.2)) = _
      rw [back]
      rfl

/-- A parameter list as it is read: a single `void` is an empty one. -/
theorem functionParts_of_behindFunction? {encoding result : Encoding}
    (spelled : ∀ part ∈ parts, Spelled loose part.bytes) (target : Spelled loose result.bytes)
    (behind : behindFunction? encoding.bytes =
      some ((concat parts).bytes ++ code '_' :: result.bytes)) :
    encoding.functionParts = .ok (if parts = [builtin 'v'] then [] else parts, result) := by
  have long : parts.length < ((concat parts).bytes ++ code '_' :: result.bytes).length + 1 := by
    have bound := length_le_bytes_concat spelled
    rw [List.length_append]
    omega
  have last := front_append target []
  rw [List.append_nil] at last
  unfold functionParts
  rw [behind]
  change (parameterFronts _ _ >>= fun read => front read.2 >>= fun found =>
    Except.ok (if read.1 = [builtin 'v'] then [] else read.1, found.1)) = _
  rw [parameterFronts_concat spelled long]
  change (front result.bytes >>= fun found =>
    Except.ok (if parts = [builtin 'v'] then [] else parts, found.1)) = _
  rw [last]
  rfl

theorem writtenParameters_eq_void (parameters : List Encoding) (ellipsis : Bool) :
    (if writtenParameters parameters ellipsis = [builtin 'v'] then []
      else writtenParameters parameters ellipsis) =
    if parameters = [builtin 'v'] ∧ ellipsis = false then []
      else parameters ++ if ellipsis then [builtin 'e'] else [] := by
  cases ellipsis with
  | false =>
    cases parameters with
    | nil => rfl
    | cons first rest => simp [writtenParameters]
  | true =>
    have written : writtenParameters parameters true = parameters ++ [builtin 'e'] := by
      simp [writtenParameters]
    have differ : parameters ++ [builtin 'e'] ≠ [builtin 'v'] := by
      intro same
      have last := congrArg List.getLast? same
      rw [List.getLast?_concat] at last
      exact absurd last (by decide)
    rw [written, if_neg differ, if_neg fun both => absurd both.2 (by decide), if_pos rfl]

theorem functionParts_function {parameters : List Encoding} {ellipsis : Bool} {result : Encoding}
    (spelled : ∀ parameter ∈ parameters, Spelled loose parameter.bytes)
    (target : Spelled loose result.bytes) {encoding : Encoding}
    (prefixed : encoding = function parameters ellipsis result ∨
      encoding = (function parameters ellipsis result).constOf) :
    encoding.functionParts = .ok (if parameters = [builtin 'v'] ∧ ellipsis = false then []
      else parameters ++ if ellipsis then [builtin 'e'] else [], result) := by
  have behind : behindFunction? encoding.bytes = some
      ((concat (writtenParameters parameters ellipsis)).bytes ++ code '_' :: result.bytes) := by
    rcases prefixed with rfl | rfl
    · rw [bytes_function]
      rfl
    · unfold constOf
      rw [bytes_append, bytes_function]
      rfl
  rw [functionParts_of_behindFunction? (spelled_writtenParameters spelled) target behind,
    writtenParameters_eq_void]

/-! ## Decoding undoes encoding -/

/-- Wherever a complete encoding stands, reading at its front stops behind it.  Therefore names,
template-ids and function types, with or without a `const` in front, are taken apart into what
they were built from. -/
theorem complete_decodes :
    (∀ encoding, Complete encoding → ∀ before behind : List UInt8,
      (extent ((before ++ encoding.bytes ++ behind).drop before.length)).map (before.length + ·) =
        some (before.length + encoding.bytes.length)) ∧
    (∀ components, 2 ≤ components.length → components.length ≤ limit →
      (∀ component ∈ components, Complete component) →
      (qualified components).names = .ok components) ∧
    (∀ name arguments, (∀ argument ∈ arguments, Complete argument) →
      (concat arguments).bytes.length ≤ limit →
      (templateId name arguments).templateName = .ok (simpleName name) ∧
      (templateId name arguments).templateArguments = .ok arguments) ∧
    (∀ parameters ellipsis result, (∀ parameter ∈ parameters, Complete parameter) →
      Complete result →
      ∀ encoding ∈ [function parameters ellipsis result,
        (function parameters ellipsis result).constOf],
      encoding.functionParts = .ok (if parameters = [builtin 'v'] ∧ ellipsis = false then []
        else parameters ++ if ellipsis then [builtin 'e'] else [], result)) := by
  have all {parts : List Encoding} (complete : ∀ part ∈ parts, Complete part) :
      ∀ part ∈ parts, Spelled (· = []) part.bytes :=
    fun part member => (complete part member).spelled
  refine ⟨fun encoding complete before behind => ?_, fun components several told complete => ?_,
    fun name arguments complete told => ⟨?_, ?_⟩,
    fun parameters ellipsis result complete target encoding member => ?_⟩
  · rw [List.append_assoc, List.drop_left, complete.spelled.extent_append]
    rfl
  · exact names_qualified several told (all complete)
  · exact templateName_templateId name told
  · exact templateArguments_templateId name told (all complete)
  · apply functionParts_function (all complete) target.spelled
    rcases List.mem_cons.mp member with same | member
    · exact .inl same
    · exact .inr (List.mem_singleton.mp member)

/-- A member function type with a template-id and an ellipsis among its parameters, and the
template-id by itself, as the last component of a name and in the middle of other bytes. -/
theorem complete_decodes_memberFunction :
    (function [templateId "list" [(builtin 'c').constOf.pointerTo], builtin 'i'] true
        (builtin 'v')).constOf.functionParts =
      .ok ([templateId "list" [(builtin 'c').constOf.pointerTo], builtin 'i', builtin 'e'],
        builtin 'v') ∧
    (templateId "list" [(builtin 'c').constOf.pointerTo]).templateArguments =
      .ok [(builtin 'c').constOf.pointerTo] ∧
    (qualified [simpleName "std", templateId "list" [(builtin 'c').constOf.pointerTo]]).names =
      .ok [simpleName "std", templateId "list" [(builtin 'c').constOf.pointerTo]] ∧
    (extent (([0x50] ++ (templateId "list" [(builtin 'c').constOf.pointerTo]).bytes ++
      [0x69]).drop 1)).map (1 + ·) = some 11 := by
  have pointer : Complete (builtin 'c').constOf.pointerTo :=
    .modified (by decide) (.modified (by decide) (.builtin (by decide)))
  have arguments : ∀ argument ∈ [(builtin 'c').constOf.pointerTo], Complete argument :=
    List.forall_mem_singleton.mpr pointer
  have list : Complete (templateId "list" [(builtin 'c').constOf.pointerTo]) :=
    .templateId "list" arguments (by decide)
  rcases complete_decodes with ⟨anywhere, names, templates, functions⟩
  refine ⟨?_, (templates "list" _ arguments (by decide)).2, ?_, ?_⟩
  · apply functions _ true _ _ (.builtin (by decide)) _
      (List.mem_cons_of_mem _ (List.mem_singleton_self _))
    exact List.forall_mem_cons.mpr ⟨list, List.forall_mem_singleton.mpr (.builtin (by decide))⟩
  · exact names _ (by decide) (by decide)
      (List.forall_mem_cons.mpr ⟨.simpleName "std", List.forall_mem_singleton.mpr list⟩)
  · exact (anywhere _ list [0x50] [0x69]).trans (by decide +kernel)

/-! ## Equal template-ids -/

/-- Arguments of two template-ids that look the same once they are packed.  Both lists fill what a
length byte can tell, so what tells them apart is cut off. -/
def CutAlike (left right : List Encoding) : Prop :=
  limit ≤ (concat left).bytes.length ∧ limit ≤ (concat right).bytes.length ∧
    (concat left).bytes.take limit = (concat right).bytes.take limit

theorem counted_eq_iff {left right : List UInt8} :
    counted left = counted right ↔ left.take limit = right.take limit := by
  constructor
  · intro same
    injection same with same
    exact (List.cons.inj same).2
  · intro same
    have short : min left.length limit = min right.length limit := by
      have lengths := congrArg List.length same
      rw [List.length_take, List.length_take] at lengths
      omega
    unfold counted lengthByte
    rw [same, short]

/-- Counted bytes mark their own end. -/
theorem counted_append_inj {left right behind behindToo : List UInt8}
    (same : (counted left).bytes ++ behind = (counted right).bytes ++ behindToo) :
    counted left = counted right ∧ behind = behindToo := by
  rcases List.cons.inj same with ⟨told, rest⟩
  have taken : (left.take limit).length = (right.take limit).length := by
    have lengths := congrArg lengthOf? told
    rw [lengthOf?_lengthByte, lengthOf?_lengthByte] at lengths
    rw [List.length_take, List.length_take, Nat.min_comm, Option.some.inj lengths, Nat.min_comm]
  rcases List.append_inj rest taken with ⟨front, back⟩
  exact ⟨counted_eq_iff.mpr front, back⟩

/-- Names that are not cut are known by their encodings. -/
theorem simpleName_inj {name other : String} (fits : (utf8Bytes name).length ≤ limit)
    (fitsToo : (utf8Bytes other).length ≤ limit) (same : simpleName name = simpleName other) :
    name = other := by
  have bytes := counted_eq_iff.mp same
  rw [List.take_of_length_le fits, List.take_of_length_le fitsToo] at bytes
  exact utf8Bytes_inj.mp bytes

/-- Types or names one behind the other are known by their bytes. -/
theorem concat_inj {left right : List Encoding} (spelled : ∀ part ∈ left, Spelled loose part.bytes)
    (spelledToo : ∀ part ∈ right, Spelled loose part.bytes) (same : concat left = concat right) :
    left = right := by
  have parts := splitTypes_concat spelled
  rw [same, splitTypes_concat spelledToo] at parts
  exact (Except.ok.inj parts).symm

/-- Packed arguments are equal where the arguments are, or where both lists are cut. -/
theorem counted_concat_eq_iff {left right : List Encoding}
    (spelled : ∀ part ∈ left, Spelled loose part.bytes)
    (spelledToo : ∀ part ∈ right, Spelled loose part.bytes) :
    counted (concat left).bytes = counted (concat right).bytes ↔
      left = right ∨ CutAlike left right := by
  rw [counted_eq_iff]
  constructor
  · intro same
    by_cases whole : (concat left).bytes.length < limit ∨ (concat right).bytes.length < limit
    · have lengths := congrArg List.length same
      rw [List.length_take, List.length_take] at lengths
      rw [List.take_of_length_le (by omega), List.take_of_length_le (by omega)] at same
      exact .inl (concat_inj spelled spelledToo (congrArg Encoding.mk same))
    · rcases not_or.mp whole with ⟨fills, fillsToo⟩
      exact .inr ⟨Nat.le_of_not_lt fills, Nat.le_of_not_lt fillsToo, same⟩
  · rintro (rfl | ⟨_, _, same⟩)
    · rfl
    · exact same

/-! ## Types that differ in template arguments only -/

/-- A stretch of two types that differ in template arguments only: bytes that both have, or a
template-id with the arguments that the one and the other one have there. -/
inductive Stretch where
  | common (bytes : List UInt8)
  | instances (name : String) (left right : List Encoding)

namespace Stretch

/-- The stretch in the one type. -/
def left : Stretch → Encoding
  | common bytes => ⟨bytes⟩
  | instances name left _ => templateId name left

/-- The stretch in the other type. -/
def right : Stretch → Encoding
  | common bytes => ⟨bytes⟩
  | instances name _ right => templateId name right

/-- Whether the arguments are the same in both types, or look the same once they are packed. -/
def Agrees : Stretch → Prop
  | common _ => True
  | instances _ left right => left = right ∨ CutAlike left right

/-- A stretch whose template arguments are types. -/
def IsWhole : Stretch → Prop
  | common _ => True
  | instances _ left right => ∀ part ∈ left ++ right, extent part.bytes = some part.bytes.length

end Stretch

theorem Stretch.left_eq_right_iff {stretch : Stretch} (whole : stretch.IsWhole) :
    stretch.left = stretch.right ↔ stretch.Agrees := by
  cases stretch with
  | common bytes => exact iff_of_true rfl trivial
  | instances name left right =>
    have spelled : ∀ part ∈ left ++ right, Whole part.bytes := fun part member =>
      whole_of_extent (whole part member)
    rcases List.forall_mem_append.mp spelled with ⟨leftSpelled, rightSpelled⟩
    refine Iff.trans ?_ (counted_concat_eq_iff leftSpelled rightSpelled)
    constructor
    · intro same
      exact congrArg Encoding.mk (List.append_cancel_left (congrArg Encoding.bytes same))
    · exact congrArg (builtin 'T' ++ simpleName name ++ ·)

/-- Template-ids of one name mark their own end, so what stands behind them is told apart too. -/
theorem stretches_append_inj {stretches : List Stretch} {behind behindToo : List UInt8}
    (same : (concat (stretches.map Stretch.left)).bytes ++ behind =
      (concat (stretches.map Stretch.right)).bytes ++ behindToo) :
    (∀ stretch ∈ stretches, stretch.left = stretch.right) ∧ behind = behindToo := by
  induction stretches with
  | nil => exact ⟨fun _ member => absurd member List.not_mem_nil, same⟩
  | cons first rest ih =>
    rw [bytes_concat, bytes_concat] at same ih
    simp only [List.map_cons, List.flatten_cons, List.append_assoc] at same
    have front : first.left = first.right ∧
        ((rest.map Stretch.left).map Encoding.bytes).flatten ++ behind =
          ((rest.map Stretch.right).map Encoding.bytes).flatten ++ behindToo := by
      cases first with
      | common bytes => exact ⟨rfl, List.append_cancel_left same⟩
      | instances name left right =>
        unfold Stretch.left Stretch.right templateId at same ⊢
        dsimp only at same ⊢
        simp only [bytes_append, List.append_assoc] at same
        have named := List.append_cancel_left (List.append_cancel_left same)
        rcases counted_append_inj named with ⟨packed, others⟩
        exact ⟨by rw [packed], others⟩
    rcases ih front.2 with ⟨others, last⟩
    exact ⟨List.forall_mem_cons.mpr ⟨front.1, others⟩, last⟩

/-- The types that stretches have in common, parameter by parameter, are those of one list. -/
theorem concat_map_concat (side : Stretch → Encoding) (parameters : List (List Stretch)) :
    concat (parameters.map fun stretches => concat (stretches.map side)) =
      concat (parameters.flatten.map side) := by
  refine congrArg Encoding.mk ?_
  induction parameters with
  | nil => rfl
  | cons first rest ih =>
    rw [List.map_cons, List.flatMap_cons, ih, List.flatten_cons, List.map_append,
      List.flatMap_append]
    rfl

/-- Function types are equal where all stretches of their parameters and their results are. -/
theorem function_stretches_eq_iff (parameters : List (List Stretch)) (ellipsis : Bool)
    (result otherResult : Encoding) :
    function (parameters.map fun stretches => concat (stretches.map Stretch.left)) ellipsis result =
        function (parameters.map fun stretches => concat (stretches.map Stretch.right)) ellipsis
          otherResult ↔
      (∀ stretch ∈ parameters.flatten, stretch.left = stretch.right) ∧ result = otherResult := by
  unfold function
  rw [concat_map_concat, concat_map_concat, List.isEmpty_map, List.isEmpty_map]
  dsimp only
  constructor
  · intro same
    have bytes := congrArg Encoding.bytes same
    simp only [bytes_append, List.append_assoc] at bytes
    have bytes := List.append_cancel_left bytes
    by_cases none : (parameters.isEmpty && !ellipsis) = true
    · rw [if_pos none, if_pos none] at bytes
      have empty := List.isEmpty_iff.mp (Bool.and_eq_true_iff.mp none).1
      have results := List.append_cancel_left
        (List.append_cancel_left (List.append_cancel_left bytes))
      exact ⟨fun stretch member => by simp [empty] at member, congrArg Encoding.mk results⟩
    · rw [if_neg none, if_neg none] at bytes
      rcases stretches_append_inj bytes with ⟨all, behind⟩
      have results := List.append_cancel_left (List.append_cancel_left behind)
      exact ⟨all, congrArg Encoding.mk results⟩
  · rintro ⟨all, rfl⟩
    rw [List.map_congr_left all]

/-- Two template-ids are equal if their names and arguments are, and else only where the packed
arguments of both are cut to the same bytes.  So functions whose parameters differ in template
arguments only have different types, unless every difference is cut off. -/
theorem templateId_eq_iff {name other : String} {left right : List Encoding}
    (fits : (utf8Bytes name).length ≤ limit) (fitsToo : (utf8Bytes other).length ≤ limit)
    (whole : ∀ part ∈ left ++ right, extent part.bytes = some part.bytes.length)
    {parameters : List (List Stretch)}
    (types : ∀ stretches ∈ parameters, ∀ stretch ∈ stretches, stretch.IsWhole) (ellipsis : Bool)
    (result otherResult : Encoding) :
    (templateId name left = templateId other right ↔
      name = other ∧ (left = right ∨ CutAlike left right)) ∧
    (function (parameters.map fun stretches => concat (stretches.map Stretch.left)) ellipsis
        result =
      function (parameters.map fun stretches => concat (stretches.map Stretch.right)) ellipsis
        otherResult ↔
      (∀ stretches ∈ parameters, ∀ stretch ∈ stretches, stretch.Agrees) ∧
        result = otherResult) := by
  constructor
  · have spelled : ∀ part ∈ left ++ right, Whole part.bytes := fun part member =>
      whole_of_extent (whole part member)
    rcases List.forall_mem_append.mp spelled with ⟨leftSpelled, rightSpelled⟩
    rw [← counted_concat_eq_iff leftSpelled rightSpelled]
    constructor
    · intro same
      have bytes := congrArg Encoding.bytes same
      unfold templateId at bytes
      simp only [bytes_append, List.append_assoc] at bytes
      rcases counted_append_inj (List.append_cancel_left bytes) with ⟨named, packed⟩
      exact ⟨simpleName_inj fits fitsToo named, congrArg Encoding.mk packed⟩
    · rintro ⟨rfl, packed⟩
      exact congrArg (builtin 'T' ++ simpleName name ++ ·) packed
  · have agrees : (∀ stretches ∈ parameters, ∀ stretch ∈ stretches, stretch.Agrees) ↔
        ∀ stretch ∈ parameters.flatten, stretch.left = stretch.right := by
      rw [List.forall_mem_flatten]
      exact forall₄_congr fun stretches among stretch member =>
        (Stretch.left_eq_right_iff (types stretches among stretch member)).symm
    rw [agrees]
    exact function_stretches_eq_iff parameters ellipsis result otherResult

/-- A name of 126 bytes, which fills packed arguments by itself. -/
def longName : Encoding := counted (List.replicate 126 0x61)

/-- `V<a, int>` and `V<a, char>`, where `a` is a long name, have one encoding, and so have
`void(const V<a, int> &, double)` and `void(const V<a, char> &, double)`. -/
theorem templateId_eq_iff_longName :
    (utf8Bytes "V").length ≤ limit ∧
    (∀ part ∈ [longName, builtin 'i'] ++ [longName, builtin 'c'],
      extent part.bytes = some part.bytes.length) ∧
    [longName, builtin 'i'] ≠ [longName, builtin 'c'] ∧
    templateId "V" [longName, builtin 'i'] = templateId "V" [longName, builtin 'c'] ∧
    function [(templateId "V" [longName, builtin 'i']).constOf.referenceTo, builtin 'd'] false
        (builtin 'v') =
      function [(templateId "V" [longName, builtin 'c']).constOf.referenceTo, builtin 'd'] false
        (builtin 'v') := by
  have facts : (utf8Bytes "V").length ≤ limit ∧
      (∀ part ∈ [longName, builtin 'i'] ++ [longName, builtin 'c'],
        extent part.bytes = some part.bytes.length) ∧
      [longName, builtin 'i'] ≠ [longName, builtin 'c'] ∧
      limit ≤ (concat [longName, builtin 'i']).bytes.length ∧
      limit ≤ (concat [longName, builtin 'c']).bytes.length ∧
      (concat [longName, builtin 'i']).bytes.take limit =
        (concat [longName, builtin 'c']).bytes.take limit := by decide +kernel
  rcases facts with ⟨fits, whole, differ, cut⟩
  have types : ∀ stretches ∈ [[Stretch.common [code 'R', code 'C'],
      .instances "V" [longName, builtin 'i'] [longName, builtin 'c']], [.common [code 'd']]],
      ∀ stretch ∈ stretches, stretch.IsWhole :=
    List.forall_mem_cons.mpr
      ⟨List.forall_mem_cons.mpr ⟨trivial, List.forall_mem_singleton.mpr whole⟩,
        List.forall_mem_singleton.mpr (List.forall_mem_singleton.mpr trivial)⟩
  rcases templateId_eq_iff fits fits whole types false (builtin 'v') (builtin 'v') with
    ⟨templates, functions⟩
  refine ⟨fits, whole, differ, templates.mpr ⟨rfl, .inr cut⟩, ?_⟩
  have same := functions.mpr ⟨List.forall_mem_cons.mpr
    ⟨List.forall_mem_cons.mpr ⟨trivial, List.forall_mem_singleton.mpr (.inr cut)⟩,
      List.forall_mem_singleton.mpr (List.forall_mem_singleton.mpr trivial)⟩, rfl⟩
  have referred (type : Encoding) :
      concat [⟨[code 'R', code 'C']⟩, type] = type.constOf.referenceTo :=
    congrArg (fun bytes => Encoding.mk (code 'R' :: code 'C' :: bytes)) (List.append_nil _)
  simp only [List.map_cons, List.map_nil, Stretch.left, Stretch.right, referred] at same
  exact same

end Encoding
end CppNames
