import CppNames.Encoding.Parts
import Mathlib.Data.List.Basic

namespace CppNames
namespace Encoding

/-!
# What an extent covers

`Spelled` is the format of encodings as a grammar: which bytes spell exactly one type or name.
Everything but the packed arguments of a template-id is spelled out.  The arguments are types
one behind the other, and a parameter says what may stand behind the last of them.  Complete
encodings have nothing there; an extent looks at the length alone, so for it anything may stand
there.

Reading forward and the grammar agree: at the front of bytes that begin with a spelled
encoding the extent is its length, and an extent that lies within the bytes covers a spelled
encoding.
-/

variable {loose looser : List UInt8 → Prop} {bytes behind : List UInt8}

/-- Bytes that spell one type or name.  Behind the packed arguments of a template-id may stand
what `loose` admits. -/
inductive Spelled (loose : List UInt8 → Prop) : List UInt8 → Prop where
  | modifier {byte : UInt8} {target : List UInt8} :
    Mark.ofByte byte = .modifier → Spelled loose target → Spelled loose (byte :: target)
  | array {byte : UInt8} {digits element : List UInt8} :
    Mark.ofByte byte = .array → code '_' ∉ digits → Spelled loose element →
    Spelled loose (byte :: (digits ++ code '_' :: element))
  | memberPointer {byte : UInt8} {owner member : List UInt8} :
    Mark.ofByte byte = .memberPointer → Spelled loose owner → Spelled loose member →
    Spelled loose (byte :: (owner ++ member))
  | function {byte : UInt8} {parameters : List (List UInt8)} {result : List UInt8} :
    Mark.ofByte byte = .function → (∀ parameter ∈ parameters, Spelled loose parameter) →
    Spelled loose result → Spelled loose (byte :: (parameters.flatten ++ code '_' :: result))
  | qualified {byte count : UInt8} {components : List (List UInt8)} :
    Mark.ofByte byte = .qualified → lengthOf? count = some components.length →
    (∀ component ∈ components, Spelled loose component) →
    Spelled loose (byte :: count :: components.flatten)
  | template {byte packed : UInt8} {name rest : List UInt8} {arguments : List (List UInt8)} :
    Mark.ofByte byte = .template → Spelled loose name →
    lengthOf? packed = some (arguments.flatten ++ rest).length →
    (∀ argument ∈ arguments, Spelled loose argument) → loose rest →
    Spelled loose (byte :: (name ++ packed :: (arguments.flatten ++ rest)))
  | builtin {byte : UInt8} {text : String} :
    Mark.ofByte byte = .builtin text → Spelled loose [byte]
  | name {byte : UInt8} {text : List UInt8} :
    Mark.ofByte byte = .name text.length → Spelled loose (byte :: text)

namespace Spelled

/-- What is spelled remains so where more may stand behind packed arguments. -/
theorem weaken (spelled : Spelled loose bytes) (implies : ∀ rest, loose rest → looser rest) :
    Spelled looser bytes := by
  induction spelled with
  | modifier mark _ ih => exact .modifier mark ih
  | array mark digits _ ih => exact .array mark digits ih
  | memberPointer mark _ _ owner member => exact .memberPointer mark owner member
  | function mark _ _ parameters result => exact .function mark parameters result
  | qualified mark count _ components => exact .qualified mark count components
  | template mark _ packed _ rest name arguments =>
    exact .template mark name packed arguments (implies _ rest)
  | builtin mark => exact .builtin mark
  | name mark => exact .name mark

/-- A type or name has a first byte, which is no underscore. -/
theorem starts (spelled : Spelled loose bytes) :
    ∃ byte rest, bytes = byte :: rest ∧ byte ≠ code '_' := by
  have noMark : Mark.ofByte (code '_') = .unknown := by decide
  cases spelled with
  | builtin mark | name mark | modifier mark | array mark | memberPointer mark | function mark
    | qualified mark | template mark =>
    refine ⟨_, _, rfl, fun same => ?_⟩
    rw [same, noMark] at mark
    cases mark

theorem length_pos (spelled : Spelled loose bytes) : 0 < bytes.length := by
  rcases spelled.starts with ⟨byte, rest, rfl, _⟩
  exact Nat.succ_pos _

end Spelled

/-- Every type or name takes a byte at least. -/
theorem length_le_flatten {parts : List (List UInt8)}
    (spelled : ∀ part ∈ parts, Spelled loose part) : parts.length ≤ parts.flatten.length := by
  induction parts with
  | nil => exact Nat.le_refl _
  | cons first rest ih =>
    rcases List.forall_mem_cons.mp spelled with ⟨head, tail⟩
    have one := head.length_pos
    have more := ih tail
    simp only [List.length_cons, List.flatten_cons, List.length_append]
    omega

/-! ## The extent of what is spelled -/

/-- At the front of any bytes that begin with these, every depth that is no less than their
number finds that many. -/
def Covers (bytes : List UInt8) : Prop :=
  ∀ depth behind, bytes.length ≤ depth → extentWithin depth (bytes ++ behind) = some bytes.length

theorem arrayLengthExtent_append {digits : List UInt8} (noEnd : code '_' ∉ digits)
    (behind : List UInt8) :
    arrayLengthExtent (digits ++ code '_' :: behind) = some (digits.length + 1) := by
  induction digits with
  | nil => rfl
  | cons digit rest ih =>
    have first : digit ≠ code '_' := fun same => noEnd (same ▸ List.mem_cons_self ..)
    have others : code '_' ∉ rest := fun member => noEnd (List.mem_cons_of_mem _ member)
    rw [List.cons_append, arrayLengthExtent, if_neg first, ih others]
    rfl

theorem parametersExtentWithin_flatten {parameters : List (List UInt8)}
    (spelled : ∀ parameter ∈ parameters, Spelled loose parameter)
    (covers : ∀ parameter ∈ parameters, Covers parameter) {depth : Nat}
    (deep : parameters.flatten.length < depth) (behind : List UInt8) :
    parametersExtentWithin depth (parameters.flatten ++ code '_' :: behind) =
      some (parameters.flatten.length + 1) := by
  induction parameters generalizing depth with
  | nil =>
    cases depth with
    | zero => exact absurd deep (Nat.not_lt_zero _)
    | succ depth => rw [List.flatten_nil, List.nil_append, parametersExtentWithin, if_pos rfl]; rfl
  | cons first rest ih =>
    rcases List.forall_mem_cons.mp spelled with ⟨firstSpelled, restSpelled⟩
    rcases List.forall_mem_cons.mp covers with ⟨firstCovers, restCovers⟩
    have one := firstSpelled.length_pos
    rcases firstSpelled.starts with ⟨byte, more, same, goesOn⟩
    rw [List.flatten_cons, List.length_append] at deep
    cases depth with
    | zero => exact absurd deep (Nat.not_lt_zero _)
    | succ depth =>
      have front := firstCovers depth (rest.flatten ++ code '_' :: behind) (by omega)
      have back := ih restSpelled restCovers (show rest.flatten.length < depth by omega)
      rw [List.flatten_cons, List.append_assoc]
      have whole : first ++ (rest.flatten ++ code '_' :: behind) =
          byte :: (more ++ (rest.flatten ++ code '_' :: behind)) := by rw [same]; rfl
      rw [whole, parametersExtentWithin, if_neg goesOn, ← whole, front]
      simp only [Option.bind_eq_bind, Option.bind_some, List.drop_left, back, List.length_append,
        Nat.add_assoc]

theorem componentsExtentWithin_flatten {components : List (List UInt8)}
    (spelled : ∀ component ∈ components, Spelled loose component)
    (covers : ∀ component ∈ components, Covers component) {depth : Nat}
    (deep : components.flatten.length < depth) (behind : List UInt8) :
    componentsExtentWithin depth components.length (components.flatten ++ behind) =
      some components.flatten.length := by
  induction components generalizing depth with
  | nil => rw [List.length_nil, componentsExtentWithin]; rfl
  | cons first rest ih =>
    rcases List.forall_mem_cons.mp spelled with ⟨firstSpelled, restSpelled⟩
    rcases List.forall_mem_cons.mp covers with ⟨firstCovers, restCovers⟩
    have one := firstSpelled.length_pos
    rw [List.flatten_cons, List.length_append] at deep
    cases depth with
    | zero => exact absurd deep (Nat.not_lt_zero _)
    | succ depth =>
      have front := firstCovers depth (rest.flatten ++ behind) (by omega)
      have back := ih restSpelled restCovers (show rest.flatten.length < depth by omega)
      rw [List.length_cons, List.flatten_cons, List.append_assoc, componentsExtentWithin, front]
      simp only [Option.bind_eq_bind, Option.bind_some, List.drop_left, back, List.length_append]

theorem covers_cons {byte : UInt8} {rest : List UInt8}
    (reads : ∀ depth behind, rest.length ≤ depth →
      extentWithin (depth + 1) (byte :: (rest ++ behind)) = some (rest.length + 1)) :
    Covers (byte :: rest) := by
  intro depth behind deep
  cases depth with
  | zero => exact absurd deep (Nat.not_succ_le_zero _)
  | succ depth => exact reads depth behind (Nat.le_of_succ_le_succ deep)

/-- The extent at the front of what is spelled is its length. -/
theorem Spelled.covers (spelled : Spelled loose bytes) : Covers bytes := by
  induction spelled with
  | modifier mark _ target =>
    refine covers_cons fun depth behind deep => ?_
    simp only [extentWithin, mark, target depth behind deep, Option.map_some, Nat.add_comm]
  | @array byte digits element mark noEnd _ covers =>
    refine covers_cons fun depth behind deep => ?_
    rw [List.length_append, List.length_cons] at deep
    have length := arrayLengthExtent_append noEnd (element ++ behind)
    have target := covers depth behind (by omega)
    rw [List.append_assoc, List.cons_append]
    have dropped : (digits ++ code '_' :: (element ++ behind)).drop (digits.length + 1) =
        element ++ behind := by
      rw [List.drop_length_add_append]
      rfl
    simp only [extentWithin, mark, length, Option.bind_eq_bind, Option.bind_some, dropped, target]
    simp only [List.length_append, List.length_cons, Option.some.injEq]
    omega
  | @memberPointer byte owner member mark _ _ ownerCovers memberCovers =>
    refine covers_cons fun depth behind deep => ?_
    rw [List.length_append] at deep
    have front := ownerCovers depth (member ++ behind) (by omega)
    have back := memberCovers depth behind (by omega)
    rw [List.append_assoc]
    simp only [extentWithin, mark, front, Option.bind_eq_bind, Option.bind_some, List.drop_left,
      back]
    simp only [List.length_append, Option.some.injEq]
    omega
  | @function byte parameters result mark spelled _ parametersCover resultCovers =>
    refine covers_cons fun depth behind deep => ?_
    rw [List.length_append, List.length_cons] at deep
    have front := parametersExtentWithin_flatten spelled parametersCover
      (show parameters.flatten.length < depth by omega) (result ++ behind)
    have back := resultCovers depth behind (by omega)
    rw [List.append_assoc, List.cons_append]
    have dropped : (parameters.flatten ++ code '_' :: (result ++ behind)).drop
        (parameters.flatten.length + 1) = result ++ behind := by
      rw [List.drop_length_add_append]
      rfl
    simp only [extentWithin, mark, front, Option.bind_eq_bind, Option.bind_some, dropped, back]
    simp only [List.length_append, List.length_cons, Option.some.injEq]
    omega
  | @qualified byte count components mark counted spelled componentsCover =>
    refine covers_cons fun depth behind deep => ?_
    rw [List.length_cons] at deep
    have back := componentsExtentWithin_flatten spelled componentsCover
      (show components.flatten.length < depth by omega) behind
    simp only [List.cons_append, extentWithin, mark, List.head?_cons, Option.bind_eq_bind,
      Option.bind_some, counted, List.drop_succ_cons, List.drop_zero, back, List.length_cons]
    simp only [Option.some.injEq]
    omega
  | @template byte packed name rest arguments mark _ told _ _ nameCovers _ =>
    refine covers_cons fun depth behind deep => ?_
    rw [List.length_append, List.length_cons] at deep
    have front := nameCovers depth (packed :: (arguments.flatten ++ rest ++ behind)) (by omega)
    rw [List.append_assoc, List.cons_append]
    simp only [extentWithin, mark, front, Option.bind_eq_bind, Option.bind_some, List.drop_left,
      List.head?_cons, told]
    simp only [List.length_append, List.length_cons, Option.some.injEq]
    omega
  | builtin mark =>
    refine covers_cons fun depth behind _ => ?_
    simp only [extentWithin, mark, List.length_nil]
  | @name byte text mark =>
    refine covers_cons fun depth behind _ => ?_
    simp only [extentWithin, mark, List.length_append]
    rw [if_pos (Nat.le_add_right _ _), Nat.add_comm]

/-- The extent found at the front of bytes that begin with something spelled. -/
theorem Spelled.extent_append (spelled : Spelled loose bytes) (behind : List UInt8) :
    extent (bytes ++ behind) = some bytes.length := by
  refine spelled.covers _ behind ?_
  unfold depthFor
  rw [List.length_append]
  omega

/-! ## What an extent covers -/

/-- What an extent looks at: all but the bytes of packed arguments. -/
abbrev Whole : List UInt8 → Prop := Spelled fun _ => True

/-- The first bytes, given by their number, are of a kind. -/
def Begins (kind : List UInt8 → Prop) (bytes : List UInt8) (length : Nat) : Prop :=
  ∃ front behind, bytes = front ++ behind ∧ front.length = length ∧ kind front

namespace Begins

variable {kind other back : List UInt8 → Prop} {length more : Nat}

theorem imp (begins : Begins kind bytes length) (implies : ∀ front, kind front → other front) :
    Begins other bytes length := by
  rcases begins with ⟨front, behind, whole, long, holds⟩
  exact ⟨front, behind, whole, long, implies front holds⟩

/-- A byte in front. -/
theorem cons (byte : UInt8) (begins : Begins kind bytes length) :
    Begins (fun front => ∃ rest, kind rest ∧ front = byte :: rest) (byte :: bytes)
      (1 + length) := by
  rcases begins with ⟨front, behind, rfl, rfl, holds⟩
  exact ⟨byte :: front, behind, rfl, Nat.add_comm .., front, holds, rfl⟩

/-- What begins behind the first bytes. -/
theorem append (begins : Begins kind bytes length)
    (beginsBehind : Begins back (bytes.drop length) more) :
    Begins (fun front => ∃ early late, kind early ∧ back late ∧ front = early ++ late) bytes
      (length + more) := by
  rcases begins with ⟨early, behind, rfl, rfl, holds⟩
  rw [List.drop_left] at beginsBehind
  rcases beginsBehind with ⟨late, last, rfl, rfl, holdsBehind⟩
  exact ⟨early ++ late, last, (List.append_assoc ..).symm, List.length_append, early, late, holds,
    holdsBehind, rfl⟩

end Begins

theorem begins_take {length : Nat} (within : length ≤ bytes.length) :
    Begins (fun front => front.length = length) bytes length :=
  ⟨bytes.take length, bytes.drop length, (List.take_append_drop ..).symm,
    List.length_take_of_le within, List.length_take_of_le within⟩

theorem begins_of_arrayLengthExtent {length : Nat}
    (found : arrayLengthExtent bytes = some length) :
    Begins (fun front => ∃ digits, code '_' ∉ digits ∧ front = digits ++ [code '_']) bytes
      length := by
  induction bytes generalizing length with
  | nil => cases found
  | cons byte rest ih =>
    rw [arrayLengthExtent] at found
    split at found
    · next ends =>
      cases found
      exact ⟨[byte], rest, rfl, rfl, [], List.not_mem_nil, by rw [ends]; rfl⟩
    · next goesOn =>
      rcases Option.map_eq_some_iff.mp found with ⟨more, foundMore, rfl⟩
      rw [Nat.add_comm]
      refine ((ih foundMore).cons byte).imp ?_
      rintro _ ⟨_, ⟨digits, noEnd, rfl⟩, rfl⟩
      refine ⟨byte :: digits, fun member => ?_, rfl⟩
      rcases List.mem_cons.mp member with same | member
      · exact goesOn same.symm
      · exact noEnd member

/-- Types and an underscore behind them. -/
def Parameters (bytes : List UInt8) : Prop :=
  ∃ parameters : List (List UInt8), (∀ parameter ∈ parameters, Whole parameter) ∧
    bytes = parameters.flatten ++ [code '_']

/-- A number of components. -/
def Components (count : Nat) (bytes : List UInt8) : Prop :=
  ∃ components : List (List UInt8), components.length = count ∧
    (∀ component ∈ components, Whole component) ∧ bytes = components.flatten

theorem begins_noComponents (bytes : List UInt8) : Begins (Components 0) bytes 0 :=
  ⟨[], bytes, rfl, rfl, [], rfl, fun _ member => absurd member List.not_mem_nil, rfl⟩

section Marks

variable {byte : UInt8} {length first second : Nat}

theorem begins_parameter (parameter : Begins Whole bytes first)
    (others : Begins Parameters (bytes.drop first) second) :
    Begins Parameters bytes (first + second) := by
  refine (parameter.append others).imp ?_
  rintro _ ⟨parameter, _, whole, ⟨parameters, wholes, rfl⟩, rfl⟩
  exact ⟨parameter :: parameters, List.forall_mem_cons.mpr ⟨whole, wholes⟩,
    (List.append_assoc ..).symm⟩

theorem begins_component (component : Begins Whole bytes first) {count : Nat}
    (others : Begins (Components count) (bytes.drop first) second) :
    Begins (Components (count + 1)) bytes (first + second) := by
  refine (component.append others).imp ?_
  rintro _ ⟨component, _, whole, ⟨components, rfl, wholes, rfl⟩, rfl⟩
  exact ⟨component :: components, rfl, List.forall_mem_cons.mpr ⟨whole, wholes⟩, rfl⟩

theorem begins_modifier (mark : Mark.ofByte byte = .modifier)
    (target : Begins Whole bytes length) : Begins Whole (byte :: bytes) (1 + length) := by
  refine (target.cons byte).imp ?_
  rintro _ ⟨_, whole, rfl⟩
  exact .modifier mark whole

theorem begins_array (mark : Mark.ofByte byte = .array)
    (digits : arrayLengthExtent bytes = some first)
    (element : Begins Whole (bytes.drop first) second) :
    Begins Whole (byte :: bytes) (1 + first + second) := by
  rw [Nat.add_assoc]
  refine (((begins_of_arrayLengthExtent digits).append element).cons byte).imp ?_
  rintro _ ⟨_, ⟨_, _, ⟨digits, noEnd, rfl⟩, whole, rfl⟩, rfl⟩
  rw [List.append_assoc]
  exact .array mark noEnd whole

theorem begins_memberPointer (mark : Mark.ofByte byte = .memberPointer)
    (owner : Begins Whole bytes first) (member : Begins Whole (bytes.drop first) second) :
    Begins Whole (byte :: bytes) (1 + first + second) := by
  rw [Nat.add_assoc]
  refine ((owner.append member).cons byte).imp ?_
  rintro _ ⟨_, ⟨_, _, wholeOwner, wholeMember, rfl⟩, rfl⟩
  exact .memberPointer mark wholeOwner wholeMember

theorem begins_function (mark : Mark.ofByte byte = .function)
    (parameters : Begins Parameters bytes first)
    (result : Begins Whole (bytes.drop first) second) :
    Begins Whole (byte :: bytes) (1 + first + second) := by
  rw [Nat.add_assoc]
  refine ((parameters.append result).cons byte).imp ?_
  rintro _ ⟨_, ⟨_, _, ⟨parameters, whole, rfl⟩, wholeResult, rfl⟩, rfl⟩
  rw [List.append_assoc]
  exact .function mark whole wholeResult

theorem begins_qualified (mark : Mark.ofByte byte = .qualified)
    (told : (bytes.head? >>= lengthOf?) = some first)
    (components : Begins (Components first) (bytes.drop 1) second) :
    Begins Whole (byte :: bytes) (2 + second) := by
  cases bytes with
  | nil => cases told
  | cons count rest =>
    rw [show 2 + second = 1 + (1 + second) by omega]
    refine ((components.cons count).cons byte).imp ?_
    rintro _ ⟨_, ⟨_, ⟨components, length, whole, rfl⟩, rfl⟩, rfl⟩
    exact .qualified mark (told.trans (congrArg some length.symm)) whole

theorem begins_template (mark : Mark.ofByte byte = .template) (name : Begins Whole bytes first)
    (told : ((bytes.drop first).head? >>= lengthOf?) = some second)
    (within : 1 + second ≤ (bytes.drop first).length) :
    Begins Whole (byte :: bytes) (1 + first + 1 + second) := by
  cases behind : bytes.drop first with
  | nil => rw [behind] at told; cases told
  | cons packed rest =>
    rw [behind] at told within
    rw [List.length_cons, Nat.add_comm] at within
    have back := (begins_take (Nat.le_of_succ_le_succ within)).cons packed
    rw [← behind] at back
    rw [Nat.add_assoc, Nat.add_assoc]
    refine ((name.append back).cons byte).imp ?_
    rintro _ ⟨_, ⟨_, _, whole, ⟨arguments, length, rfl⟩, rfl⟩, rfl⟩
    have counted : lengthOf? packed = some ([].flatten ++ arguments).length :=
      told.trans (congrArg some length.symm)
    exact .template mark whole counted (fun _ member => absurd member List.not_mem_nil) trivial

theorem begins_name (mark : Mark.ofByte byte = .name length) (within : length ≤ bytes.length) :
    Begins Whole (byte :: bytes) (1 + length) := by
  refine ((begins_take within).cons byte).imp ?_
  rintro _ ⟨_, rfl, rfl⟩
  exact .name mark

end Marks

/-- What is found down to a depth, where it lies within the bytes. -/
structure Finds (depth : Nat) : Prop where
  one {bytes : List UInt8} {length : Nat} : extentWithin depth bytes = some length →
    length ≤ bytes.length → Begins Whole bytes length
  parameters {bytes : List UInt8} {length : Nat} :
    parametersExtentWithin depth bytes = some length → length ≤ bytes.length →
    Begins Parameters bytes length
  components {count : Nat} {bytes : List UInt8} {length : Nat} :
    componentsExtentWithin depth count bytes = some length → length ≤ bytes.length →
    Begins (Components count) bytes length

namespace Finds

variable {depth length : Nat}

theorem oneMore (finds : Finds depth) (found : extentWithin (depth + 1) bytes = some length)
    (within : length ≤ bytes.length) : Begins Whole bytes length := by
  cases bytes with
  | nil => cases found
  | cons byte rest =>
    rw [extentWithin] at found
    rw [List.length_cons] at within
    split at found
    · next mark =>
      rcases Option.map_eq_some_iff.mp found with ⟨target, foundTarget, rfl⟩
      exact begins_modifier mark (finds.one foundTarget (by omega))
    · next mark =>
      rcases Option.bind_eq_some_iff.mp found with ⟨digits, foundDigits, found⟩
      rcases Option.bind_eq_some_iff.mp found with ⟨element, foundElement, found⟩
      cases found
      exact begins_array mark foundDigits
        (finds.one foundElement (by rw [List.length_drop]; omega))
    · next mark =>
      rcases Option.bind_eq_some_iff.mp found with ⟨owner, foundOwner, found⟩
      rcases Option.bind_eq_some_iff.mp found with ⟨member, foundMember, found⟩
      cases found
      exact begins_memberPointer mark (finds.one foundOwner (by omega))
        (finds.one foundMember (by rw [List.length_drop]; omega))
    · next mark =>
      rcases Option.bind_eq_some_iff.mp found with ⟨parameters, foundParameters, found⟩
      rcases Option.bind_eq_some_iff.mp found with ⟨result, foundResult, found⟩
      cases found
      exact begins_function mark (finds.parameters foundParameters (by omega))
        (finds.one foundResult (by rw [List.length_drop]; omega))
    · next mark =>
      rcases Option.bind_eq_some_iff.mp found with ⟨count, told, found⟩
      rcases Option.bind_eq_some_iff.mp found with ⟨components, foundComponents, found⟩
      cases found
      exact begins_qualified mark told
        (finds.components foundComponents (by rw [List.length_drop]; omega))
    · next mark =>
      rcases Option.bind_eq_some_iff.mp found with ⟨name, foundName, found⟩
      rcases Option.bind_eq_some_iff.mp found with ⟨packed, told, found⟩
      cases found
      exact begins_template mark (finds.one foundName (by omega)) told
        (by rw [List.length_drop]; omega)
    · next mark =>
      cases found
      exact ⟨[byte], rest, rfl, rfl, .builtin mark⟩
    · next mark =>
      split at found
      · next inside =>
        cases found
        exact begins_name mark inside
      · cases found
    · cases found

theorem parametersMore (finds : Finds depth)
    (found : parametersExtentWithin (depth + 1) bytes = some length)
    (within : length ≤ bytes.length) : Begins Parameters bytes length := by
  cases bytes with
  | nil => cases found
  | cons byte rest =>
    rw [parametersExtentWithin] at found
    split at found
    · next ends =>
      cases found
      exact ⟨[byte], rest, rfl, rfl, [], fun _ member => absurd member List.not_mem_nil,
        by rw [ends]; rfl⟩
    · rcases Option.bind_eq_some_iff.mp found with ⟨first, foundFirst, found⟩
      rcases Option.bind_eq_some_iff.mp found with ⟨others, foundOthers, found⟩
      cases found
      exact begins_parameter (finds.one foundFirst (by omega))
        (finds.parameters foundOthers (by rw [List.length_drop]; omega))

theorem componentsMore (finds : Finds depth) {count : Nat}
    (found : componentsExtentWithin (depth + 1) count bytes = some length)
    (within : length ≤ bytes.length) : Begins (Components count) bytes length := by
  cases count with
  | zero =>
    rw [componentsExtentWithin] at found
    cases found
    exact begins_noComponents bytes
  | succ count =>
    rw [componentsExtentWithin] at found
    rcases Option.bind_eq_some_iff.mp found with ⟨first, foundFirst, found⟩
    rcases Option.bind_eq_some_iff.mp found with ⟨others, foundOthers, found⟩
    cases found
    exact begins_component (finds.one foundFirst (by omega))
      (finds.components foundOthers (by rw [List.length_drop]; omega))

end Finds

theorem finds (depth : Nat) : Finds depth := by
  induction depth with
  | zero =>
    refine ⟨fun found => (nomatch found), fun found => (nomatch found),
      fun {count} _ _ found _ => ?_⟩
    rw [componentsExtentWithin.eq_def] at found
    cases count with
    | zero => cases found; exact begins_noComponents _
    | succ count => cases found
  | succ depth ih => exact ⟨ih.oneMore, ih.parametersMore, ih.componentsMore⟩

/-- An extent that lies within the bytes covers exactly one type or name. -/
theorem begins_of_extent {length : Nat} (found : extent bytes = some length)
    (within : length ≤ bytes.length) : Begins Whole bytes length :=
  (finds _).one found within

/-- Bytes that one extent passes over are one type or name. -/
theorem whole_of_extent {bytes : List UInt8} (whole : extent bytes = some bytes.length) :
    Whole bytes := by
  rcases begins_of_extent whole (Nat.le_refl _) with ⟨front, behind, same, long, spelled⟩
  have nothing : behind = [] := by
    have lengths := congrArg List.length same
    rw [List.length_append, long] at lengths
    exact List.eq_nil_of_length_eq_zero (by omega)
  rwa [same, nothing, List.append_nil]

end Encoding
end CppNames
