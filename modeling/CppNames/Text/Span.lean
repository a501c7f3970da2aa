import CppNames.Text.Numeral

namespace CppNames

/-!
# Places in a source text

A position is a byte offset from the start of a UTF-8 text.  A span is a
half-open range of positions, kept as a start and a length.  Every token, every
reported problem and every recorded name is located by a span.

Positions have 32 bits.  Reckoning with them is done in the natural numbers, and a
result that is no position is refused where it would be told.
-/

/-- Whether a number can be told as a position. -/
def isPosition (number : Nat) : Bool := number < capacity 32

/-- The half-open range of positions `[start, start + length)`. -/
structure Span where
  start : Nat
  length : Nat
  deriving DecidableEq, Repr, Inhabited

namespace Span

/-- The span from a first position up to, and without, a last one.  Bounds in the
wrong order give a span of no length. -/
def ofBounds (start stop : Nat) : Span := ⟨start, stop - start⟩

/-- The span of no length at a position. -/
def empty (position : Nat) : Span := ⟨position, 0⟩

/-- The first position behind the span. -/
def stop (span : Span) : Nat := span.start + span.length

/-- Whether the position behind the span can be told. -/
def isBounded (span : Span) : Bool := isPosition span.stop

/-- The first position behind the span, if it can be told. -/
def stop? (span : Span) : Option Nat := if span.isBounded then some span.stop else none

/-- Whether the span covers no position. -/
def isEmpty (span : Span) : Bool := span.length == 0

/-- Whether a position lies in the span. -/
def contains (span : Span) (position : Nat) : Bool :=
  span.start ≤ position && position < span.stop

/-- The smallest span that covers two others. -/
def union (left right : Span) : Span :=
  ofBounds (min left.start right.start) (max left.stop right.stop)

/-- The smallest span that covers two others, if it can be told where they end. -/
def union? (left right : Span) : Option Span :=
  if left.isBounded && right.isBounded then some (left.union right) else none

/-- The span in interval notation, `[3, 7)`. -/
def interval (span : Span) : String := s!"[{span.start}, {span.stop})"

/-- The span as a pair of bounds, `3..7`. -/
def bounds (span : Span) : String := s!"{span.start}..{span.stop}"

@[simp] theorem stop_ofBounds {start stop : Nat} (ordered : start ≤ stop) :
    (ofBounds start stop).stop = stop := by
  simp only [Span.stop, ofBounds]; omega

@[simp] theorem isEmpty_empty (position : Nat) : (empty position).isEmpty = true := rfl

theorem stop?_eq_some {span : Span} (bounded : span.isBounded = true) :
    span.stop? = some span.stop := by
  simp [stop?, bounded]

theorem union?_eq_some {left right : Span} (leftBounded : left.isBounded = true)
    (rightBounded : right.isBounded = true) : left.union? right = some (left.union right) := by
  simp [union?, leftBounded, rightBounded]

theorem contains_iff (span : Span) (position : Nat) :
    span.contains position = true ↔ span.start ≤ position ∧ position < span.stop := by
  simp [contains]

end Span

end CppNames
