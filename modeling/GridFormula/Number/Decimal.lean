import GridFormula.Number.Rounding

/-!
# Decimal fractions

A decimal fraction is a whole number of tenths, hundredths and so on: a coefficient times a power
of ten. This module writes such fractions out and rounds them to the nearest magnitude.

## Main definitions

* `Decimal`: a coefficient with a power of ten.
* `Decimal.plain`: its digits written out around a decimal point.
* `Decimal.scientific`: one digit before the point, the power of ten behind an `e`.
* `Decimal.nearest`: the magnitude nearest to it.
-/

namespace GridFormula

-- The powers are those of natural numbers, also where an algebra library has its own.
attribute [local instance (high)] instPowNat

/-- The **decimal fraction** `coefficient * 10 ^ exponent`. -/
structure Decimal where
  /-- The digits, as one number. -/
  coefficient : Nat
  /-- The power of ten that the last digit counts. -/
  exponent : Int
deriving DecidableEq

namespace Decimal

/-! ### Written forms -/

/-- The text without its trailing zeros. -/
def dropZeros : List Char → List Char
  | [] => []
  | c :: rest =>
    match dropZeros rest with
    | [] => if c = '0' then [] else [c]
    | kept => c :: kept

/-- The significant digits, from the first one to the last that is not zero. -/
def digits (d : Decimal) : List Char :=
  dropZeros (Nat.toDigits 10 d.coefficient)

/-- How many digits stand before the decimal point; below zero, how many zeros follow it. -/
def point (d : Decimal) : Int :=
  (Nat.toDigits 10 d.coefficient).length + d.exponent

/-- The fraction written out: all digits before the point, and a point only where digits follow
it. -/
def plain (d : Decimal) : List Char :=
  if d.coefficient = 0 then ['0']
  else if d.point ≤ 0 then '0' :: '.' :: List.replicate (-d.point).toNat '0' ++ d.digits
  else
    let before := d.point.toNat
    if d.digits.length ≤ before then
      d.digits ++ List.replicate (before - d.digits.length) '0'
    else d.digits.take before ++ '.' :: d.digits.drop before

/-- An integer with its sign, in decimal digits. -/
def signedDigits (i : Int) : List Char :=
  if i < 0 then '-' :: Nat.toDigits 10 i.natAbs else Nat.toDigits 10 i.natAbs

/-- The fraction with one digit before the point and its power of ten behind an `e`. -/
def scientific (d : Decimal) : List Char :=
  let power := 'e' :: signedDigits (d.point - 1)
  match d.digits with
  | [] => '0' :: power
  | [digit] => digit :: power
  | digit :: more => digit :: '.' :: more ++ power

/-! ### Rounding -/

/-- The magnitude nearest to the fraction. Fractions far beyond either end of the format are
decided by their number of digits alone: from `10 ^ 309` on all are infinite, and below
`10 ^ (-330)` all are zero. -/
def nearest (d : Decimal) : Magnitude :=
  if d.coefficient = 0 then .zero
  else if 310 ≤ d.point then .infinity
  else if d.point ≤ -330 then .zero
  else if 0 ≤ d.exponent then
    .ofUnits (d.coefficient * 10 ^ d.exponent.toNat * unitsPerOne) 1
  else .ofUnits (d.coefficient * unitsPerOne) (10 ^ (-d.exponent).toNat)

end Decimal

end GridFormula
