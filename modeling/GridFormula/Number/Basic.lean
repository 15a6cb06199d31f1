/-!
# Numbers

The numbers of formulas are the floating-point numbers of the double format: one sign bit,
eleven exponent bits and fifty-two fraction bits. Read without the sign bit, the patterns of the
format are ordered as the magnitudes they stand for, so a magnitude is represented by its *rank*
in that order: rank zero is zero, rank one the smallest positive number, and the last rank is
infinity.

Every finite magnitude is a whole multiple of the smallest positive one. That multiple, the
number of its *units*, turns exact arithmetic on magnitudes into arithmetic on `Nat`.

## Main definitions

* `Magnitude`, `Number`: the numbers without and with a sign.
* `Magnitude.units`: a magnitude as a multiple of the smallest positive one.
* `unitsPerOne`: the number of units in one.
-/

namespace GridFormula

-- The powers are those of natural numbers, also where an algebra library has its own.
attribute [local instance (high)] instPowNat

/-- The rank of infinity: all exponent bits set, no fraction bit. -/
def infinityRank : Nat := 2047 * 2 ^ (52 : Nat)

/-- The number of units in one. -/
def unitsPerOne : Nat := 2 ^ (1074 : Nat)

/-- A **magnitude**: a non-negative number of the double format, by its rank. -/
structure Magnitude where
  /-- The number of smaller magnitudes. -/
  rank : Nat
  /-- No magnitude lies above infinity. -/
  rank_le : rank ≤ infinityRank
deriving DecidableEq

/-- A **number**: a signed magnitude, or the outcome of an operation that has no value. -/
inductive Number where
  /-- No value. -/
  | nan
  /-- A magnitude with its sign; zero has two signs. -/
  | signed (negative : Bool) (magnitude : Magnitude)
deriving DecidableEq

namespace Magnitude

/-- The magnitude of zero. -/
def zero : Magnitude := ⟨0, Nat.zero_le _⟩

/-- The magnitude of infinity. -/
def infinity : Magnitude := ⟨infinityRank, Nat.le_refl _⟩

/-- Whether the magnitude is zero. -/
def isZero (m : Magnitude) : Bool := m.rank = 0

/-- Whether the magnitude is infinity. -/
def isInfinite (m : Magnitude) : Bool := m.rank = infinityRank

/-- The magnitude as a multiple of the smallest positive one. In the lowest binades neighbours
are one unit apart; in each later one their distance doubles. -/
def units (m : Magnitude) : Nat :=
  let binade := m.rank / 2 ^ (52 : Nat)
  let fraction := m.rank % 2 ^ (52 : Nat)
  if binade = 0 then fraction else (2 ^ (52 : Nat) + fraction) * 2 ^ (binade - 1)

end Magnitude

namespace Number

/-- Positive zero. -/
def zero : Number := .signed false .zero

/-- Whether the number is one of the two zeros. -/
def isZero : Number → Bool
  | .nan => false
  | .signed _ m => m.isZero

end Number

end GridFormula
