/-!
# Spans of code points

Character classes are given as lists of spans; a span of step two takes every other code point, as
the upper and lower case letters of many alphabets alternate.
-/

namespace Synopsis.Text

/-- The code points `first`, `first + step`, and so on up to `last`. -/
structure Span where
  first : Nat
  last : Nat
  step : Nat

namespace Span

/-- The code point lies in the span. -/
def has (s : Span) (code : Nat) : Bool :=
  decide (s.first ≤ code) && decide (code ≤ s.last) && (code - s.first) % s.step == 0

end Span

/-- A span of code points that all move by the same distance. -/
structure Shift where
  span : Span
  distance : Int

namespace Shift

/-- Where a code point of the span goes. -/
def target (s : Shift) (code : Nat) : Nat :=
  (code + s.distance).toNat

end Shift

end Synopsis.Text
