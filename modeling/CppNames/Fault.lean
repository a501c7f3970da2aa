import CppNames.Encoding.Parts

namespace CppNames

/-!
# Computations without an answer

An identifier of a scope or a symbol is an index, and nothing in its type says that the
table has an entry there; an encoding may tell a length that it does not have; links
between scopes may run in a circle; and a number may outgrow the width it is kept in.  A
computation that meets such data has no answer.  Of a text whose positions can be told
only two things bring it about: an encoding that is cut off at the largest length that
can be told, and a type with more `long`s than can be counted.
-/

/-- Why a computation has no answer. -/
inductive Fault where
  /-- An encoding ends before a length that it tells. -/
  | overrun
  /-- An identifier names no entry of the table. -/
  | dangling
  /-- A search runs in a circle. -/
  | endless
  /-- A number outgrows its width. -/
  | overflow
  deriving DecidableEq, Repr

/-- The result of a computation that may meet data without an answer. -/
abbrev Outcome (α : Type) := Except Fault α

/-- A result that is absent where a number outgrows its width. -/
def Outcome.ofBounded {α : Type} : Option α → Outcome α
  | some value => .ok value
  | none => .error .overflow

/-- What an encoding holds; nothing where it is malformed. -/
def Outcome.ofEncoding {α : Type} : Except Encoding.Flaw α → Outcome (Option α)
  | .ok value => .ok (some value)
  | .error .malformed => .ok none
  | .error .overrun => .error .overrun

/-! ## Computations that have a result -/

namespace Outcome

theorem ok_bind {α β : Type} (value : α) (next : α → Outcome β) :
    (.ok value : Outcome α) >>= next = next value := rfl

variable {ε α β : Type}

/-- A result of two computations, one after the other, has a result of the first one behind
it. -/
theorem of_bind {first : Except ε α} {next : α → Except ε β} {result : β}
    (ran : first >>= next = .ok result) :
    ∃ value, first = .ok value ∧ next value = .ok result := by
  cases first with
  | error error => cases ran
  | ok value => exact ⟨value, rfl, ran⟩

/-- A changed result is what the change makes of a result. -/
theorem of_map {outcome : Except ε α} {change : α → β} {result : β}
    (ran : outcome.map change = .ok result) :
    ∃ value, outcome = .ok value ∧ change value = result := by
  cases outcome with
  | error error => cases ran
  | ok value => exact ⟨value, rfl, Except.ok.inj ran⟩

theorem of_toOption {outcome : Except ε α} {value : α}
    (some : outcome.toOption = some value) : outcome = .ok value := by
  cases outcome <;> cases some
  rfl

end Outcome

end CppNames
