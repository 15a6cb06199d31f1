import GridFormula.Number.Rounding

/-!
# Arithmetic

Addition, subtraction, multiplication, division and remainder of numbers: the exact result on
units, rounded once, with the usual rules for infinities and signed zeros. Comparison goes by
value, so the two zeros are equal, and the number without value compares with nothing.

## Main definitions

* `Number.neg`, `Number.add`, `Number.sub`, `Number.mul`, `Number.div`, `Number.rem`.
* `Number.compare?`: the order of two numbers that have one.
* `Number.equals`: equality by value.
* `Number.ofInt`: the number nearest to an integer.
-/

namespace GridFormula.Number

/-- The number with the opposite sign. -/
def neg : Number → Number
  | .nan => .nan
  | .signed negative m => .signed (!negative) m

/-- The **sum**. An exact sum of zero is positive unless both zeros are negative; opposite
infinities have no sum. -/
def add : Number → Number → Number
  | .nan, _ => .nan
  | _, .nan => .nan
  | .signed s m, .signed t n =>
    if m.isInfinite then
      if n.isInfinite && s != t then .nan else .signed s m
    else if n.isInfinite then .signed t n
    else if s = t then .signed s (.ofUnits (m.units + n.units) 1)
    else if m.units = n.units then zero
    else if n.units < m.units then .signed s (.ofUnits (m.units - n.units) 1)
    else .signed t (.ofUnits (n.units - m.units) 1)

/-- The **difference**: the sum with the opposite number. -/
def sub (x y : Number) : Number := add x (neg y)

/-- The **product**. Zero times infinity has no value. -/
def mul : Number → Number → Number
  | .nan, _ => .nan
  | _, .nan => .nan
  | .signed s m, .signed t n =>
    if m.isInfinite || n.isInfinite then
      if m.isZero || n.isZero then .nan else .signed (s != t) .infinity
    else .signed (s != t) (.ofUnits (m.units * n.units) unitsPerOne)

/-- The **quotient**. Zero by zero and infinity by infinity have no value; any other number by
zero is infinite. -/
def div : Number → Number → Number
  | .nan, _ => .nan
  | _, .nan => .nan
  | .signed s m, .signed t n =>
    if m.isInfinite then
      if n.isInfinite then .nan else .signed (s != t) .infinity
    else if n.isInfinite then .signed (s != t) .zero
    else if n.isZero then
      if m.isZero then .nan else .signed (s != t) .infinity
    else .signed (s != t) (.ofUnits (m.units * unitsPerOne) n.units)

/-- The **remainder** of the quotient cut towards zero; it has the sign of the dividend. An
infinite dividend or a zero divisor has no remainder, and an infinite divisor leaves the
dividend. -/
def rem : Number → Number → Number
  | .nan, _ => .nan
  | _, .nan => .nan
  | .signed s m, .signed _ n =>
    if m.isInfinite || n.isZero then .nan
    else if n.isInfinite then .signed s m
    else .signed s (.ofUnits (m.units % n.units) 1)

/-- The place of a signed magnitude in ascending order; both zeros have place zero. -/
def place (negative : Bool) (m : Magnitude) : Int :=
  if negative then -(m.rank : Int) else m.rank

/-- The **order** of two numbers by value, `none` when one of them has no value. -/
def compare? : Number → Number → Option Ordering
  | .signed s m, .signed t n => some (compare (place s m) (place t n))
  | _, _ => none

/-- Equality by value: the zeros are equal, and a number without value equals nothing. -/
def equals (x y : Number) : Bool := compare? x y = some .eq

/-- The number nearest to an integer. -/
def ofInt (i : Int) : Number :=
  .signed (i < 0) (.ofUnits (i.natAbs * unitsPerOne) 1)

end GridFormula.Number
