import CppNames.Proofs.Encoding.Complete

namespace CppNames
namespace Encoding

/-!
# Components of names

A name is put together from components, each of which is spelled in full: an identifier is cut
to what its length can tell, and so are the packed arguments of a template-id.  So the last
component of a name and the name of its template can always be read, though only as many
components are told apart as their count tells.
-/

section

variable {parts : List Encoding} {encoding : Encoding}

/-- A component of a name as it is read. -/
inductive IsComponent : Encoding → Prop where
  | globalScope : IsComponent globalScope
  | simpleName (text : String) : IsComponent (simpleName text)
  | templateId (text : String) (arguments : List Encoding) : IsComponent (templateId text arguments)

theorem ofByte_template : Mark.ofByte (code 'T') = .template := by decide

theorem lengthOf?_lengthByte_take (bytes : List UInt8) :
    lengthOf? (lengthByte bytes.length) = some (bytes.take limit).length := by
  rw [lengthOf?_lengthByte, List.length_take, Nat.min_comm]

/-- A length byte is none of the letters that tell kinds apart. -/
theorem beginsWith_counted (bytes : List UInt8) {c : Char} (letter : lengthOf? (code c) = none) :
    (counted bytes).beginsWith c = false := by
  unfold beginsWith counted
  rw [List.head?_cons, Option.some_beq_some, beq_eq_false_iff_ne]
  intro same
  rw [← same, lengthOf?_lengthByte] at letter
  cases letter

/-- The packed arguments of a template-id may be cut off anywhere, so nothing is known of them. -/
theorem IsComponent.spelled (component : IsComponent encoding) :
    Spelled (fun _ => True) encoding.bytes := by
  cases component with
  | globalScope =>
    have global : Mark.ofByte 0x80 = .name ([] : List UInt8).length := by decide
    exact .name global
  | simpleName text => exact spelled_simpleName text
  | templateId text arguments =>
    let packed := (concat arguments).bytes
    have told : lengthOf? (lengthByte packed.length) =
        some (([] : List (List UInt8)).flatten ++ packed.take limit).length :=
      lengthOf?_lengthByte_take packed
    exact .template ofByte_template (spelled_simpleName text) told
      (fun argument member => absurd member List.not_mem_nil) trivial

theorem IsComponent.isQualified_eq (component : IsComponent encoding) :
    encoding.isQualified = false := by
  cases component with
  | globalScope => decide
  | simpleName text => exact beginsWith_counted _ (by decide)
  | templateId text arguments => exact (by decide : (some (code 'T') == some (code 'Q')) = false)

theorem exists_templateName (component : IsComponent encoding) :
    ∃ plain, encoding.templateName = .ok plain := by
  cases component with
  | globalScope => exact ⟨globalScope, by decide⟩
  | simpleName text =>
    have plain : (simpleName text).isTemplateId = false := beginsWith_counted _ (by decide)
    refine ⟨simpleName text, ?_⟩
    unfold templateName
    rw [plain]
    rfl
  | templateId text arguments =>
    have spelled : Spelled (fun _ => True) (simpleName text).bytes := spelled_simpleName text
    have named := front_append spelled (counted (concat arguments).bytes).bytes
    have bytes : (templateId text arguments).bytes.drop 1 =
        (simpleName text).bytes ++ (counted (concat arguments).bytes).bytes := rfl
    refine ⟨simpleName text, ?_⟩
    unfold templateName
    rw [if_pos (isTemplateId_templateId ..), bytes, named]

theorem isQualified_qualified (several : 2 ≤ parts.length) :
    (qualified parts).isQualified = true := by
  unfold isQualified beginsWith
  rw [bytes_qualified several]
  rfl

/-- The components that are counted stand in front of the others. -/
theorem bytes_qualified_counted (several : 2 ≤ parts.length) :
    (qualified parts).bytes =
      (code 'Q' :: lengthByte parts.length :: (concat (parts.take limit)).bytes) ++
        (concat (parts.drop limit)).bytes := by
  rw [bytes_qualified several, bytes_concat, bytes_concat, bytes_concat, List.cons_append,
    List.cons_append, ← List.flatten_append, ← List.map_append, List.take_append_drop]

/-- As many components are told apart as their count tells. -/
theorem names_qualified_take (several : 2 ≤ parts.length)
    (components : ∀ part ∈ parts, IsComponent part) :
    (qualified parts).names = .ok (parts.take limit) := by
  have counted : ((qualified parts).bytes[1]? >>= lengthOf?).getD 0 =
      (parts.take limit).length := by
    rw [bytes_qualified several]
    change (lengthOf? (lengthByte parts.length)).getD 0 = _
    rw [lengthOf?_lengthByte, List.length_take, Nat.min_comm]
    rfl
  have bytes : (qualified parts).bytes.drop 2 =
      (concat (parts.take limit)).bytes ++ (concat (parts.drop limit)).bytes := by
    rw [bytes_qualified_counted several]
    rfl
  have spelled : ∀ part ∈ parts.take limit, Spelled (fun _ => True) part.bytes :=
    fun part member => (components part (List.mem_of_mem_take member)).spelled
  unfold names
  rw [if_pos (isQualified_qualified several), counted, bytes]
  exact fronts_append spelled (.inl rfl)

/-- A name that is one component is its own only component. -/
theorem names_of_isComponent (component : IsComponent encoding) :
    encoding.names = .ok [encoding] := by
  unfold names
  rw [component.isQualified_eq]
  rfl

theorem names_qualified_of_ne_nil (named : parts ≠ [])
    (components : ∀ part ∈ parts, IsComponent part) :
    (qualified parts).names = .ok (parts.take limit) := by
  rcases parts with _ | ⟨first, _ | ⟨second, rest⟩⟩
  · exact absurd rfl named
  · exact names_of_isComponent (components first List.mem_cons_self)
  · exact names_qualified_take (Nat.le_add_left 2 rest.length) components

/-- The bytes of as many components as can be counted are spelled; the others follow them. -/
theorem spelled_counted (components : ∀ part ∈ parts, IsComponent part) :
    Spelled (fun _ => True)
      (code 'Q' :: lengthByte parts.length :: (concat (parts.take limit)).bytes) := by
  rw [bytes_concat]
  refine .qualified (by decide) ?_ (spelled_bytes fun part member =>
    (components part (List.mem_of_mem_take member)).spelled)
  rw [lengthOf?_lengthByte, List.length_map, List.length_take, Nat.min_comm]

theorem spelled_qualified (named : parts ≠ []) (components : ∀ part ∈ parts, IsComponent part)
    (told : parts.length ≤ limit) : Spelled (fun _ => True) (qualified parts).bytes := by
  rcases parts with _ | ⟨first, _ | ⟨second, rest⟩⟩
  · exact absurd rfl named
  · exact (components first List.mem_cons_self).spelled
  · have spelled := spelled_counted components
    rw [List.take_of_length_le told] at spelled
    exact spelled

/-- A name ends where its count tells just where its components can be counted. -/
theorem extent_qualified_iff (named : parts ≠ [])
    (components : ∀ part ∈ parts, IsComponent part) :
    extent (qualified parts).bytes = some (qualified parts).bytes.length ↔
      parts.length ≤ limit := by
  constructor
  · intro ends
    by_contra many
    have several : 2 ≤ parts.length := Nat.le_trans (by decide) (Nat.le_of_not_le many)
    rw [bytes_qualified_counted several, (spelled_counted components).extent_append,
      List.length_append, Option.some_inj] at ends
    have uncounted : (parts.drop limit).length ≤ (concat (parts.drop limit)).bytes.length :=
      length_le_bytes_concat fun part member =>
        (components part (List.mem_of_mem_drop member)).spelled
    rw [List.length_drop] at uncounted
    omega
  · intro told
    have ends := (spelled_qualified named components told).extent_append []
    rw [List.append_nil] at ends
    exact ends

/-- The last component of a name can be told, though it may not be the last one written. -/
theorem exists_lastName_qualified (named : parts ≠ [])
    (components : ∀ part ∈ parts, IsComponent part) :
    ∃ last, (qualified parts).lastName = .ok last ∧ IsComponent last := by
  rcases parts with _ | ⟨first, _ | ⟨second, rest⟩⟩
  · exact absurd rfl named
  · have single := components first List.mem_cons_self
    refine ⟨first, ?_, single⟩
    unfold lastName
    rw [qualified, single.isQualified_eq]
    rfl
  · let all := first :: second :: rest
    have several : 2 ≤ all.length := Nat.le_add_left 2 rest.length
    have told := names_qualified_take several components
    have there : all.take limit ≠ [] := by
      change first :: (second :: rest).take 126 ≠ []
      exact List.cons_ne_nil _ _
    refine ⟨(all.take limit).getLastD empty, ?_, ?_⟩
    · unfold lastName
      rw [if_pos (isQualified_qualified several), told]
      rfl
    · rw [List.getLastD_eq_getLast?, List.getLast?_eq_some_getLast there]
      exact components _ (List.mem_of_mem_take (List.getLast_mem there))

end

/-!
## Types composed around names

A type is composed around the names that occur in it: modifiers, arrays and functions are put
around names and builtin types.  `ComposedOf` says so with the names left open, because a name
of too many components is no complete encoding, and then no type around it is one either.
Where all names are spelled, so is every type composed around them.  In any case what a type
begins with tells how it was made: a type that begins like a qualified name is one of its names.
-/

variable {good : Encoding → Prop} {encoding target : Encoding} {parts : List Encoding}

/-- The types composed around some names. -/
inductive ComposedOf (good : Encoding → Prop) : Encoding → Prop where
  | component {part : Encoding} : IsComponent part → ComposedOf good part
  | name {name : Encoding} : good name → ComposedOf good name
  | builtin {c : Char} : c ∈ "bcwisljfdrve?*".toList → ComposedOf good (.builtin c)
  | modified {c : Char} {target : Encoding} : c ∈ "SUCVPR".toList → ComposedOf good target →
    ComposedOf good (.builtin c ++ target)
  | array {element : Encoding} (length : Option Nat) : ComposedOf good element →
    ComposedOf good (element.arrayOf length)
  | function {parameters : List Encoding} {result : Encoding} (ellipsis : Bool) :
    (∀ parameter ∈ parameters, ComposedOf good parameter) → ComposedOf good result →
    ComposedOf good (.function parameters ellipsis result)

namespace ComposedOf

theorem pointerTo (composed : ComposedOf good target) : ComposedOf good target.pointerTo :=
  .modified (by decide) composed

theorem referenceTo (composed : ComposedOf good target) : ComposedOf good target.referenceTo :=
  .modified (by decide) composed

theorem constOf (composed : ComposedOf good target) : ComposedOf good target.constOf :=
  .modified (by decide) composed

theorem volatileOf (composed : ComposedOf good target) : ComposedOf good target.volatileOf :=
  .modified (by decide) composed

end ComposedOf

/-! ## What is composed around spelled names -/

theorem spelled_arrayOf {loose : List UInt8 → Prop} (spelled : Spelled loose target.bytes)
    (length : Option Nat) : Spelled loose (target.arrayOf length).bytes := by
  have array : Spelled loose (code 'A' ::
      ((length.elim [] fun n => (toString n).toList).map code ++ code '_' :: target.bytes)) :=
    .array (by decide) (notMem_digits (isDigit_of_mem_length length)) spelled
  unfold arrayOf
  rw [bytes_append, bytes_append, bytes_append, List.append_assoc, List.append_assoc]
  exact array

theorem ComposedOf.spelled (composed : ComposedOf good encoding)
    (names : ∀ name, good name → Spelled (fun _ => True) name.bytes) :
    Spelled (fun _ => True) encoding.bytes := by
  induction composed with
  | component part => exact part.spelled
  | name holds => exact names _ holds
  | builtin listed => exact spelled_builtin listed
  | modified listed _ target => exact .modifier (ofByte_modifier _ listed) target
  | array length _ element => exact spelled_arrayOf element length
  | @function parameters result ellipsis _ _ spelled target =>
    rw [bytes_function, bytes_concat]
    exact .function (by decide) (spelled_bytes (spelled_writtenParameters spelled)) target

/-! ## What a type begins with -/

/-- No modifier and no builtin type begins like a qualified name. -/
theorem isQualified_append {listed : String} {c : Char} (target : Encoding)
    (none : (listed.toList.all fun c => !(code c == code 'Q')) = true)
    (member : c ∈ listed.toList) : (builtin c ++ target).isQualified = false := by
  have differs := List.all_eq_true.mp none c member
  exact Bool.not_eq_true' _ |>.mp differs

/-- A type that begins like a qualified name is one of the names it is composed around. -/
theorem ComposedOf.good_of_isQualified (composed : ComposedOf good encoding)
    (isQualified : encoding.isQualified = true) : good encoding := by
  have differs : encoding.isQualified = false → good encoding := by
    intro different
    rw [different] at isQualified
    cases isQualified
  cases composed with
  | component part => exact differs part.isQualified_eq
  | name holds => exact holds
  | builtin listed => exact differs (isQualified_append empty (by decide) listed)
  | @modified c target listed _ => exact differs (isQualified_append target (by decide) listed)
  | array length _ => exact differs rfl
  | function ellipsis _ _ => exact differs rfl

/-- What begins neither with the mark of a function nor with a `const` is no function type. -/
theorem isFunction_of_beginsWith (noFunction : encoding.beginsWith 'F' = false)
    (noConst : encoding.beginsWith 'C' = false) : encoding.isFunction = false := by
  cases bytes : encoding.bytes with
  | nil =>
    unfold isFunction
    rw [bytes]
    rfl
  | cons first rest =>
    have different : ∀ c, encoding.beginsWith c = false → first ≠ code c := by
      intro c none same
      unfold beginsWith at none
      rw [bytes, same, List.head?_cons, beq_self_eq_true] at none
      cases none
    unfold isFunction
    rw [bytes]
    simp only [behindFunction?, if_neg (different 'F' noFunction), if_neg (different 'C' noConst)]
    rfl

theorem isFunction_append {listed : String} {c : Char} (target : Encoding)
    (none : (listed.toList.all fun c => !(code c == code 'F') && !(code c == code 'C')) = true)
    (member : c ∈ listed.toList) : (builtin c ++ target).isFunction = false := by
  have differs := Bool.and_eq_true_iff.mp (List.all_eq_true.mp none c member)
  exact isFunction_of_beginsWith (Bool.not_eq_true' _ |>.mp differs.1)
    (Bool.not_eq_true' _ |>.mp differs.2)

/-- A `const` makes no function type of a type that is none. -/
theorem isFunction_constOf (plain : target.isFunction = false) :
    target.constOf.isFunction = false := by
  cases bytes : target.bytes with
  | nil =>
    unfold isFunction constOf
    rw [bytes_append, bytes]
    rfl
  | cons first rest =>
    have different : first ≠ code 'F' := by
      intro same
      unfold isFunction at plain
      rw [bytes] at plain
      simp only [behindFunction?, if_pos same] at plain
      cases plain
    have behind : target.constOf.bytes = code 'C' :: first :: rest := by
      unfold constOf
      rw [bytes_append, bytes]
      rfl
    unfold isFunction
    rw [behind]
    change (if first = code 'F' then some rest else none).isSome = false
    rw [if_neg different]
    rfl

theorem IsComponent.isFunction_eq (component : IsComponent encoding) :
    encoding.isFunction = false := by
  cases component with
  | globalScope => decide
  | simpleName text =>
    exact isFunction_of_beginsWith (beginsWith_counted _ (by decide))
      (beginsWith_counted _ (by decide))
  | templateId text arguments => rfl

/-- The name of something is no function type, however many components it has. -/
theorem isFunction_qualified (components : ∀ part ∈ parts, IsComponent part) :
    (qualified parts).isFunction = false := by
  rcases parts with _ | ⟨first, _ | ⟨second, rest⟩⟩
  · rfl
  · exact (components first List.mem_cons_self).isFunction_eq
  · rfl

end Encoding
end CppNames
