import GridFormula.Number.Basic

/-!
# Rounding

Every operation on numbers is exact first and rounded once. This module rounds a quotient of
natural numbers to the nearest magnitude; of two equally near ones the one with the even rank
wins.

## Main definitions

* `halfEven`: a quotient rounded to the nearest natural number, a half to the even one.
* `Magnitude.ofUnits`: a quotient of units rounded to the nearest magnitude.
-/

namespace GridFormula

-- The powers are those of natural numbers, also where an algebra library has its own.
attribute [local instance (high)] instPowNat

/-- The natural number nearest to `numerator / denominator`; a half goes to the even one. -/
def halfEven (numerator denominator : Nat) : Nat :=
  let floor := numerator / denominator
  let twice := 2 * (numerator % denominator)
  if twice < denominator then floor
  else if denominator < twice then floor + 1
  else if floor % 2 = 0 then floor else floor + 1

namespace Magnitude

/-- How many doublings the distance of neighbouring magnitudes has gone through where a whole
number of `count` units lies. -/
def doublings (count : Nat) : Nat := count.log2 - 52

/-- The magnitude nearest to `numerator / denominator` units. Beyond the largest finite magnitude
by half a step or more it is infinity. -/
def ofUnits (numerator denominator : Nat) : Magnitude :=
  let doubled := doublings (numerator / denominator)
  let rank := halfEven numerator (denominator * 2 ^ doubled) + doubled * 2 ^ (52 : Nat)
  ⟨min infinityRank rank, Nat.min_le_left _ _⟩

end Magnitude

end GridFormula
