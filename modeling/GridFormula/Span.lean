/-!
# Spans

A span is a range of byte positions in the text that a caller handed in. Positions have a
largest value, where they stop growing when a span is moved.

## Main definitions

* `Span`: the ranges.
* `Span.shift`: a span as seen from a text in which the old one starts later.

## Main results

* `Span.shift_zero`, `Span.shift_shift`: shifts add up.
-/

namespace GridFormula

-- The powers are those of natural numbers, also where an algebra library has its own.
attribute [local instance (high)] instPowNat

/-- The largest byte position. -/
def maxPosition : Nat := 2 ^ (64 : Nat) - 1

/-- A **span**: the bytes from `start` up to, but not including, `stop`. -/
structure Span where
  /-- The first byte. -/
  start : Nat
  /-- The byte after the last one. -/
  stop : Nat
deriving DecidableEq

namespace Span

/-- The span moved `offset` bytes to the right. -/
def shift (offset : Nat) (span : Span) : Span :=
  ⟨min maxPosition (span.start + offset), min maxPosition (span.stop + offset)⟩

theorem shift_shift (first second : Nat) (span : Span) :
    (span.shift first).shift second = span.shift (first + second) := by
  simp only [shift, Span.mk.injEq]
  omega

/-- A span that is not moved keeps its place, where positions can hold it. -/
theorem shift_zero {span : Span} (h : span.stop ≤ maxPosition) (hle : span.start ≤ span.stop) :
    span.shift 0 = span := by
  cases span
  simp only [shift, Span.mk.injEq] at *
  omega

end Span

end GridFormula
