import GridFormula.Number.Reading

/-!
# Shortest decimals

A magnitude is written with the fewest digits that read back to it. For one digit, two digits
and so on up to seventeen, the two decimal fractions next to the magnitude on the grid of that
many digits are tried, the nearer one first; the first fraction whose written form reads back is
taken. The last resort is the exact value, which always has finitely many digits.

## Main definitions

* `Magnitude.point`: how many digits the whole part has.
* `Magnitude.neighbours`: the two decimal fractions on one grid.
* `Magnitude.shortest`: the decimal fraction that is written.

## Main results

* `Magnitude.shortest_cases`: what is written is next to the magnitude on some grid and reads back,
  or it is the exact value.
-/

namespace GridFormula.Magnitude

-- The powers are those of natural numbers, also where an algebra library has its own.
attribute [local instance (high)] instPowNat

/-- The number of digits before the point of a positive finite magnitude; below zero, the number
of zeros that follow the point. The magnitude is less than this power of ten and at least a
tenth of it. -/
def point (m : Magnitude) : Int :=
  if unitsPerOne ≤ m.units then (Nat.toDigits 10 (m.units / unitsPerOne)).length
  else 1 - (Nat.toDigits 10 ((unitsPerOne - 1) / m.units)).length

/-- The two decimal fractions next to the magnitude among those whose last digit counts
`10 ^ exponent`: the nearer one first, and of two equally near ones the larger. -/
def neighbours (m : Magnitude) (exponent : Int) : List Decimal :=
  let numerator := m.units * 10 ^ (-exponent).toNat
  let denominator := unitsPerOne * 10 ^ exponent.toNat
  let below := numerator / denominator
  if 2 * (numerator % denominator) < denominator then
    [⟨below, exponent⟩, ⟨below + 1, exponent⟩]
  else [⟨below + 1, exponent⟩, ⟨below, exponent⟩]

/-- The exact value of a finite magnitude: a unit is the thousand and seventy-fourth power of
five on the grid of as many decimals. -/
def exact (m : Magnitude) : Decimal :=
  ⟨m.units * 5 ^ (1074 : Nat), -1074⟩

/-- Whether the written form of `d` reads back to `m`. -/
def readsFrom (m : Magnitude) (d : Decimal) : Bool :=
  ofNumeral? d.plain = some m

/-- The first of the two fractions next to the magnitude on the grid of so many digits that reads
back. -/
def withDigits? (m : Magnitude) (digits : Nat) : Option Decimal :=
  (m.neighbours (m.point - digits)).find? m.readsFrom

/-- The **shortest decimal** of a finite magnitude. -/
def shortest (m : Magnitude) : Decimal :=
  ((List.range' 1 17).findSome? m.withDigits?).getD m.exact

/-- What is written is next to the magnitude on some grid and reads back, or it is the exact
value. -/
theorem shortest_cases (m : Magnitude) :
    (∃ digits, m.shortest ∈ m.neighbours (m.point - digits) ∧
      ofNumeral? m.shortest.plain = some m) ∨ m.shortest = m.exact := by
  unfold shortest
  cases h : (List.range' 1 17).findSome? m.withDigits? with
  | none => exact .inr rfl
  | some d =>
    obtain ⟨digits, -, hd⟩ := List.exists_of_findSome?_eq_some h
    rw [withDigits?] at hd
    refine .inl ⟨digits, List.mem_of_find?_eq_some hd, ?_⟩
    simpa only [readsFrom, decide_eq_true_eq, Option.getD_some] using List.find?_some hd

end GridFormula.Magnitude
