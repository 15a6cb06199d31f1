import GridFormula.Number.Notation
import GridFormula.Proofs.Words

/-!
# Numerals

A finite magnitude is written so that it is read back. Most magnitudes are written by the first of a
few short decimals that passes this very test; the last resort is the exact value, which passes as
well: writing a decimal out keeps its value, and the magnitude nearest to the value of a magnitude
is the magnitude itself.

## Main results

* `Magnitude.ofUnits_units`: rounding the units of a magnitude gives the magnitude.
* `Decimal.exists_written`: a decimal that is written out keeps its digits and its value.
* `Magnitude.ofNumeral?_text`: a finite magnitude is read back from its text.
-/

namespace GridFormula

-- The powers are those of natural numbers, also where an algebra library has its own.
attribute [local instance (high)] instPowNat

/-! ### Exact quotients -/

theorem halfEven_mul {k : Nat} (hk : 0 < k) (n : Nat) : halfEven (n * k) k = n := by
  simp [halfEven, Nat.mul_div_cancel n hk, hk]

namespace Magnitude

theorem doublings_of_lt {units : Nat} (h : units < 2 ^ (52 : Nat)) : doublings units = 0 := by
  rw [doublings, Nat.sub_eq_zero_iff_le]
  by_cases hzero : units = 0
  · simp [hzero]
  · exact Nat.le_of_lt ((Nat.log2_lt hzero).2 h)

/-- As many units as a binade has steps, doubled some times over. -/
theorem doublings_mul_two_pow {steps : Nat} (hle : 2 ^ (52 : Nat) ≤ steps)
    (hlt : steps < 2 ^ (53 : Nat)) (n : Nat) : doublings (steps * 2 ^ n) = n := by
  have hpos := Nat.two_pow_pos n
  have hlog : (steps * 2 ^ n).log2 = 52 + n := by
    rw [Nat.log2_eq_iff (Nat.mul_ne_zero (by omega) (by omega)), Nat.pow_add, Nat.add_right_comm,
      Nat.pow_add]
    exact ⟨Nat.mul_le_mul_right _ hle, Nat.mul_lt_mul_of_pos_right hlt hpos⟩
  rw [doublings, hlog, Nat.add_sub_cancel_left]

/-- In every binade the units are the step of the binade times a whole number, which counts the
magnitudes below. -/
theorem units_eq (m : Magnitude) :
    ∃ steps, m.units = steps * 2 ^ doublings m.units ∧
      m.rank = steps + doublings m.units * 2 ^ (52 : Nat) ∧ steps < 2 ^ (53 : Nat) ∧
        (doublings m.units ≠ 0 → 2 ^ (52 : Nat) ≤ steps) := by
  have hrank := Nat.div_add_mod m.rank (2 ^ (52 : Nat))
  have hfraction := Nat.mod_lt m.rank (Nat.two_pow_pos 52)
  unfold units
  dsimp only
  generalize m.rank / 2 ^ (52 : Nat) = binade at *
  generalize m.rank % 2 ^ (52 : Nat) = fraction at *
  split
  · next hbinade =>
    have hdoublings := doublings_of_lt hfraction
    refine ⟨fraction, by simp [hdoublings], ?_, ?_, fun h => absurd hdoublings h⟩
    · rw [hdoublings]
      subst hbinade
      omega
    · omega
  · next hbinade =>
    obtain ⟨doubled, rfl⟩ := Nat.exists_eq_succ_of_ne_zero hbinade
    have hle : 2 ^ (52 : Nat) ≤ 2 ^ (52 : Nat) + fraction := Nat.le_add_right ..
    have hlt : 2 ^ (52 : Nat) + fraction < 2 ^ (53 : Nat) := by omega
    rw [Nat.succ_sub_one, doublings_mul_two_pow hle hlt]
    exact ⟨2 ^ (52 : Nat) + fraction, rfl, by omega, hlt, fun _ => hle⟩

/-- Rounding the **units** of a magnitude gives the magnitude. -/
theorem ofUnits_units (m : Magnitude) {k : Nat} (hk : 0 < k) : ofUnits (m.units * k) k = m := by
  obtain ⟨steps, hunits, hrank, -⟩ := m.units_eq
  have hround : halfEven (m.units * k) (k * 2 ^ doublings m.units) = steps := by
    have hproduct : m.units * k = steps * (k * 2 ^ doublings m.units) :=
      calc m.units * k = steps * 2 ^ doublings m.units * k := congrArg (· * k) hunits
        _ = steps * (k * 2 ^ doublings m.units) := by rw [Nat.mul_assoc, Nat.mul_comm k]
    rw [hproduct]
    exact halfEven_mul (Nat.mul_pos hk (Nat.two_pow_pos _)) steps
  unfold ofUnits
  rw [Nat.mul_div_cancel _ hk]
  simp only [hround, ← hrank, Nat.min_eq_right m.rank_le]

theorem units_pos {m : Magnitude} (h : m.rank ≠ 0) : 0 < m.units := by
  obtain ⟨steps, hunits, hrank, -⟩ := m.units_eq
  refine Nat.pos_of_ne_zero fun hzero => h ?_
  have hdoublings : doublings 0 = 0 := by decide
  rw [hzero, hdoublings] at hunits hrank
  omega

/-- How many doublings the distance of the largest finite magnitudes has gone through. -/
def lastDoublings : Nat := 2045

theorem units_lt {m : Magnitude} (h : m.rank ≠ infinityRank) :
    m.units < 2 ^ (53 : Nat) * 2 ^ lastDoublings := by
  obtain ⟨steps, hunits, hrank, hsteps, hnormal⟩ := m.units_eq
  have hfinite : m.rank < 2047 * 2 ^ (52 : Nat) := Nat.lt_of_le_of_ne m.rank_le h
  have hdoublings : doublings m.units ≤ lastDoublings := by
    unfold lastDoublings
    by_cases hzero : doublings m.units = 0
    · omega
    · have := hnormal hzero
      omega
  rw [hunits]
  exact Nat.mul_lt_mul_of_lt_of_le hsteps (Nat.pow_le_pow_right (by decide) hdoublings)
    (Nat.two_pow_pos _)

end Magnitude

/-! ### Written decimals -/

namespace Decimal

/-- The digits behind a point, with the point if there are any. -/
def pointed : List Char → List Char
  | [] => []
  | digits => '.' :: digits

theorem exists_dropZeros_append (text : List Char) :
    ∃ n, text = dropZeros text ++ List.replicate n '0' := by
  induction text with
  | nil => exact ⟨0, rfl⟩
  | cons c rest ih =>
    obtain ⟨n, hrest⟩ := ih
    cases hkept : dropZeros rest with
    | nil =>
      rw [hkept, List.nil_append] at hrest
      by_cases hc : c = '0'
      · refine ⟨n + 1, ?_⟩
        rw [dropZeros, hkept, hrest, hc]
        rfl
      · refine ⟨n, ?_⟩
        rw [dropZeros, hkept, hrest]
        simp [hc]
    | cons d kept =>
      refine ⟨n, ?_⟩
      rw [dropZeros, hkept, List.cons_append, ← hkept, ← hrest]

/-- The digits of a decimal are those of its coefficient without some **zeros at their end**. -/
structure Trims (d : Decimal) (zeros : Nat) : Prop where
  /-- Some digits are left. -/
  digits_ne_nil : d.digits ≠ []
  /-- There is nothing but digits. -/
  isDigit : ∀ c ∈ d.digits, c.isDigit = true
  /-- The zeros scale what is left to the coefficient. -/
  value : d.coefficient = Nat.ofDigitChars 10 d.digits 0 * 10 ^ zeros
  /-- They count for where the point stands. -/
  point_eq : d.point = d.digits.length + zeros + d.exponent

theorem exists_trims {d : Decimal} (h : d.coefficient ≠ 0) : ∃ zeros, d.Trims zeros := by
  obtain ⟨zeros, hdigits⟩ := exists_dropZeros_append (Nat.toDigits 10 d.coefficient)
  rw [← digits] at hdigits
  have hvalue : d.coefficient = Nat.ofDigitChars 10 d.digits 0 * 10 ^ zeros := by
    have hvalue := Nat.ofDigitChars_ten_toDigits (n := d.coefficient)
    rw [hdigits, Nat.ofDigitChars_append, Nat.ofDigitChars_replicate_zero, Nat.mul_comm] at hvalue
    exact hvalue.symm
  refine ⟨zeros, fun hnil => ?_, fun c hc => ?_, hvalue, ?_⟩
  · rw [hnil] at hvalue
    simp at hvalue
    exact h hvalue
  · have hmem : c ∈ Nat.toDigits 10 d.coefficient := by
      rw [hdigits]
      exact List.mem_append_left _ hc
    exact Nat.isDigit_of_mem_toDigits (by decide) (by decide) hmem
  · rw [point, hdigits, List.length_append, List.length_replicate, Int.natCast_add]

/-- Digits that are **written out** around a point make up the decimal, if its last digit counts a
fraction. -/
structure Written (d : Decimal) (whole fraction : List Char) : Prop where
  /-- Some digits stand in front of the point. -/
  whole_ne_nil : whole ≠ []
  /-- There is nothing but digits. -/
  isDigit : ∀ c ∈ whole ++ fraction, c.isDigit = true
  /-- They are the coefficient without some of the zeros at its end. -/
  value : d.exponent ≤ 0 → ∃ k : Nat, fraction.length + k = -d.exponent ∧
    d.coefficient = Nat.ofDigitChars 10 (whole ++ fraction) 0 * 10 ^ k

theorem isDigit_of_mem_zeros {n : Nat} {c : Char} (h : c ∈ List.replicate n '0') :
    c.isDigit = true := by
  rw [List.eq_of_mem_replicate h]
  rfl

section Trims

variable {d : Decimal} {zeros : Nat} (h : d.Trims zeros)
include h

/-- The point stands in front of all digits, and zeros between them do not count. -/
theorem Trims.written_of_point_le (hpoint : d.point ≤ 0) :
    d.Written ['0'] (List.replicate (-d.point).toNat '0' ++ d.digits) := by
  refine ⟨List.cons_ne_nil _ _, fun c hc => ?_, fun hexponent => ⟨zeros, ?_, ?_⟩⟩
  · simp only [List.mem_append, List.mem_singleton] at hc
    rcases hc with rfl | hc | hc
    · rfl
    · exact isDigit_of_mem_zeros hc
    · exact h.isDigit c hc
  · have hpoint := h.point_eq
    rw [List.length_append, List.length_replicate]
    omega
  · have hzeros : Nat.ofDigitChars 10
        (['0'] ++ (List.replicate (-d.point).toNat '0' ++ d.digits)) 0 =
          Nat.ofDigitChars 10 d.digits 0 := by
      rw [Nat.ofDigitChars_append, Nat.ofDigitChars_append, Nat.ofDigitChars_replicate_zero]
      simp [Nat.ofDigitChars_cons]
    rw [hzeros]
    exact h.value

/-- The point stands behind all digits, and zeros fill the gap. -/
theorem Trims.written_of_length_le (hlength : (d.digits.length : Int) ≤ d.point) :
    d.Written (d.digits ++ List.replicate (d.point.toNat - d.digits.length) '0') [] := by
  refine ⟨by simp [h.digits_ne_nil], fun c hc => ?_, fun hexponent =>
    ⟨(-d.exponent).toNat, by simp; omega, ?_⟩⟩
  · rw [List.append_nil] at hc
    rcases List.mem_append.1 hc with hc | hc
    · exact h.isDigit c hc
    · exact isDigit_of_mem_zeros hc
  · have hpoint := h.point_eq
    have hzeros : zeros = d.point.toNat - d.digits.length + (-d.exponent).toNat := by omega
    rw [List.append_nil, Nat.ofDigitChars_append, Nat.ofDigitChars_replicate_zero, h.value,
      Nat.mul_comm (10 ^ _), Nat.mul_assoc, ← Nat.pow_add, ← hzeros]

/-- The point stands between digits. -/
theorem Trims.written_of_lt_length (hpoint : 0 < d.point) (hlength : d.point < d.digits.length) :
    d.Written (d.digits.take d.point.toNat) (d.digits.drop d.point.toNat) := by
  refine ⟨?_, ?_, fun hexponent => ⟨zeros, ?_, ?_⟩⟩
  · rw [ne_eq, List.take_eq_nil_iff]
    rintro (hzero | hnil)
    · omega
    · exact h.digits_ne_nil hnil
  · rw [List.take_append_drop]
    exact h.isDigit
  · have hpoint := h.point_eq
    rw [List.length_drop]
    omega
  · rw [List.take_append_drop]
    exact h.value

end Trims

theorem pointed_of_ne_nil {digits : List Char} (h : digits ≠ []) :
    pointed digits = '.' :: digits := by
  obtain ⟨c, rest, rfl⟩ := List.exists_cons_of_ne_nil h
  rfl

/-- A decimal is **written out** as some digits, with more behind a point if there are any. -/
theorem exists_written {d : Decimal} (h : d.coefficient ≠ 0) :
    ∃ whole fraction, d.plain = whole ++ pointed fraction ∧ d.Written whole fraction := by
  obtain ⟨zeros, htrims⟩ := exists_trims h
  rw [plain, if_neg h]
  split
  · next hbefore =>
    refine ⟨_, _, ?_, htrims.written_of_point_le hbefore⟩
    rw [pointed_of_ne_nil (List.append_ne_nil_of_right_ne_nil _ htrims.digits_ne_nil)]
    rfl
  · next hbefore =>
    dsimp only
    split
    · next hshort =>
      exact ⟨_, _, (List.append_nil _).symm, htrims.written_of_length_le (by omega)⟩
    · next hlong =>
      refine ⟨_, _, ?_, htrims.written_of_lt_length (by omega) (by omega)⟩
      rw [pointed_of_ne_nil (by rw [ne_eq, List.drop_eq_nil_iff]; omega)]

/-- Digits around a point are read as their decimal. -/
theorem ofNumeral?_pointed {whole fraction : List Char} (hwhole : whole ≠ [])
    (hdigits : ∀ c ∈ whole ++ fraction, c.isDigit = true) :
    ofNumeral? (whole ++ pointed fraction) =
      some ⟨Nat.ofDigitChars 10 (whole ++ fraction) 0, -fraction.length⟩ := by
  have hrun : ∀ c ∈ whole, c.isDigit = true := fun c hc => hdigits c (List.mem_append_left _ hc)
  have hrest : ∀ c ∈ fraction, c.isDigit = true := fun c hc =>
    hdigits c (List.mem_append_right _ hc)
  have hstop : ∀ c ∈ (pointed fraction).head?, c.isDigit = false := by
    intro c hc
    cases fraction <;> cases hc
    rfl
  have htake := Lexeme.takeWhile_append_of_stop hrun hstop
  have hdrop := Lexeme.dropWhile_append_of_stop hrun hstop
  have hnil : ∀ c ∈ ([] : List Char).head?, c.isDigit = false := by simp
  have hend := Lexeme.takeWhile_append_of_stop hrest hnil
  have hbehind := Lexeme.dropWhile_append_of_stop hrest hnil
  rw [List.append_nil] at hend hbehind
  unfold ofNumeral?
  rw [htake, hdrop]
  cases fraction with
  | nil => simp [pointed, powerOfText?, hwhole]
  | cons c fraction => simp [pointed, hend, hbehind, powerOfText?, hwhole]

/-! ### The value of a magnitude -/

/-- A decimal has the **value** of a finite magnitude: a unit is the thousand and seventy-fourth
power of five on the grid of as many decimals. -/
structure HasValue (d : Decimal) (m : Magnitude) : Prop where
  /-- The last digit does not count more than ones. -/
  exponent_le : d.exponent ≤ 0
  /-- Written with as many decimals as the units have, the two agree. -/
  value : ∃ k : Nat, d.exponent = -1074 + k ∧ m.units * 5 ^ (1074 : Nat) = d.coefficient * 10 ^ k

theorem point_le_iff {d : Decimal} {k n : Nat} (hexponent : d.exponent = -1074 + k) (hk : k < n) :
    d.point ≤ -1074 + n ↔ d.coefficient * 10 ^ k < 10 ^ n := by
  have hlength := Nat.length_toDigits_le_iff (b := 10) (n := d.coefficient) (k := n - k)
    (by decide) (by omega)
  have hscale : d.coefficient * 10 ^ k < 10 ^ n ↔ d.coefficient < 10 ^ (n - k) := by
    rw [← Nat.sub_add_cancel (Nat.le_of_lt hk), Nat.pow_add, Nat.add_sub_cancel]
    exact Nat.mul_lt_mul_right (Nat.pow_pos (by decide))
  rw [hscale, ← hlength, point]
  omega

section HasValue

variable {d : Decimal} {m : Magnitude} (h : HasValue d m)
include h

theorem HasValue.coefficient_ne_zero (hzero : m.rank ≠ 0) : d.coefficient ≠ 0 := by
  obtain ⟨-, k, -, hvalue⟩ := h
  intro heq
  rw [heq, Nat.zero_mul] at hvalue
  exact Nat.ne_of_gt (Nat.mul_pos (Magnitude.units_pos hzero) (Nat.pow_pos (by decide))) hvalue

/-- The value of a finite magnitude is not too large to be read. -/
theorem HasValue.point_le (hfinite : m.rank ≠ infinityRank) : d.point ≤ 309 := by
  obtain ⟨hexponent, k, hk, hvalue⟩ := h
  have hfive : ∀ n, 0 < 5 ^ n := fun n => Nat.pow_pos (by decide)
  have hbound : d.coefficient * 10 ^ k < 10 ^ (1383 : Nat) :=
    calc d.coefficient * 10 ^ k = m.units * 5 ^ (1074 : Nat) := hvalue.symm
      _ < 2 ^ (53 : Nat) * 2 ^ Magnitude.lastDoublings * 5 ^ (1074 : Nat) :=
        Nat.mul_lt_mul_of_pos_right (Magnitude.units_lt hfinite) (hfive 1074)
      _ ≤ 10 ^ (1383 : Nat) := by decide +kernel
  have hpoint := (point_le_iff hk (n := 1383) (by omega)).2 hbound
  omega

/-- The value of a magnitude that is not zero is not too small to be read. -/
theorem HasValue.lt_point (hzero : m.rank ≠ 0) : -330 < d.point := by
  obtain ⟨hexponent, k, hk, hvalue⟩ := h
  refine Int.not_le.1 fun hpoint => ?_
  by_cases hlarge : k < 744
  · have hsmall := (point_le_iff hk hlarge).1 (by omega)
    rw [← hvalue] at hsmall
    have hbound : 10 ^ (744 : Nat) ≤ 5 ^ (1074 : Nat) := by decide +kernel
    have hunits : 5 ^ (1074 : Nat) ≤ m.units * 5 ^ (1074 : Nat) :=
      Nat.le_mul_of_pos_left _ (Magnitude.units_pos hzero)
    exact Nat.not_lt.2 (Nat.le_trans hbound hunits) hsmall
  · have hlength := Nat.length_toDigits_pos (b := 10) (n := d.coefficient)
    rw [point] at hpoint
    omega

/-- The magnitude **nearest** to the value of a finite magnitude is the magnitude. -/
theorem HasValue.nearest_eq (hzero : m.rank ≠ 0) (hfinite : m.rank ≠ infinityRank) :
    d.nearest = m := by
  have hcoefficient := h.coefficient_ne_zero hzero
  have hbelow := h.point_le hfinite
  have habove := Int.not_le.2 (h.lt_point hzero)
  obtain ⟨hexponent, k, hk, hvalue⟩ := h
  have hten : ∀ n, 10 ^ n = 2 ^ n * 5 ^ n := Nat.mul_pow 2 5
  -- in units the value is the whole number that the magnitude has
  have hunits : d.coefficient * unitsPerOne * 10 ^ k = m.units * 10 ^ (1074 : Nat) :=
    calc d.coefficient * unitsPerOne * 10 ^ k = unitsPerOne * (d.coefficient * 10 ^ k) := by
          rw [Nat.mul_comm d.coefficient, Nat.mul_assoc]
      _ = unitsPerOne * (m.units * 5 ^ (1074 : Nat)) := by rw [hvalue]
      _ = m.units * 10 ^ (1074 : Nat) := by rw [hten 1074, Nat.mul_left_comm, unitsPerOne]
  unfold nearest
  rw [if_neg hcoefficient, if_neg (by omega), if_neg habove]
  split
  · next hwhole =>
    obtain rfl : k = 1074 := by omega
    have hexponent : d.exponent.toNat = 0 := by omega
    have heq := Nat.eq_of_mul_eq_mul_right (Nat.pow_pos (by decide)) hunits
    rw [hexponent, Nat.pow_zero, Nat.mul_one, heq]
    simpa using m.ofUnits_units Nat.one_pos
  · next hfraction =>
    have hsum : (-d.exponent).toNat + k = 1074 := by omega
    rw [← hsum, Nat.pow_add, ← Nat.mul_assoc] at hunits
    rw [Nat.eq_of_mul_eq_mul_right (Nat.pow_pos (by decide)) hunits]
    exact m.ofUnits_units (Nat.pow_pos (by decide))

end HasValue

/-- What a decimal is written out as begins with a digit and is a numeral without an exponent. -/
theorem exists_plain_eq_cons (d : Decimal) :
    ∃ c rest, d.plain = c :: rest ∧ c.isDigit = true ∧
      ∀ c ∈ d.plain, Lexeme.isNumeralPart c = true := by
  by_cases hzero : d.coefficient = 0
  · have hplain : d.plain = ['0'] := if_pos hzero
    exact ⟨'0', [], hplain, rfl, by simp [hplain, Lexeme.isNumeralPart]⟩
  · obtain ⟨whole, fraction, hplain, hwhole, hdigits, -⟩ := exists_written hzero
    obtain ⟨c, rest, rfl⟩ := List.exists_cons_of_ne_nil hwhole
    refine ⟨c, rest ++ pointed fraction, hplain, hdigits c (by simp), fun d hd => ?_⟩
    have hcases : d ∈ c :: rest ++ fraction ∨ d = '.' := by
      rw [hplain] at hd
      cases fraction with
      | nil => exact .inl hd
      | cons e fraction =>
        simp only [pointed, List.mem_append, List.mem_cons] at hd ⊢
        rcases hd with hd | rfl | hd
        · exact .inl (.inl hd)
        · exact .inr rfl
        · exact .inl (.inr hd)
    rcases hcases with hd | rfl
    · simp [Lexeme.isNumeralPart, hdigits d hd]
    · rfl

end Decimal

/-! ### Written magnitudes -/

namespace Magnitude

theorem ofNumeral?_plain_exact {m : Magnitude} (hzero : m.rank ≠ 0)
    (hfinite : m.rank ≠ infinityRank) : ofNumeral? m.exact.plain = some m := by
  have hcoefficient : m.exact.coefficient ≠ 0 :=
    Nat.mul_ne_zero (Nat.ne_of_gt (units_pos hzero)) (by decide +kernel)
  obtain ⟨whole, fraction, hplain, hwhole, hdigits, hwritten⟩ :=
    Decimal.exists_written hcoefficient
  have hexponent : m.exact.exponent = -1074 := rfl
  obtain ⟨k, hk, hvalue⟩ := hwritten (by omega)
  have hread : Decimal.HasValue
      ⟨Nat.ofDigitChars 10 (whole ++ fraction) 0, -fraction.length⟩ m := by
    refine ⟨?_, k, ?_, hvalue⟩ <;> dsimp only <;> omega
  rw [ofNumeral?, hplain, Decimal.ofNumeral?_pointed hwhole hdigits, Option.map_some,
    hread.nearest_eq hzero hfinite]

/-- A finite magnitude is **read back** from its text. -/
theorem ofNumeral?_text {m : Magnitude} (h : m.isInfinite = false) :
    ofNumeral? m.text = some m := by
  have hfinite : m.rank ≠ infinityRank := by simpa [isInfinite] using h
  rw [text, h]
  by_cases hzero : m.isZero = true
  · have hrank : m.rank = 0 := by simpa [isZero] using hzero
    have hm : m = zero := by
      obtain ⟨rank, _⟩ := m
      subst hrank
      rfl
    rw [hm]
    rfl
  · rw [Bool.not_eq_true] at hzero
    rw [hzero, if_neg Bool.false_ne_true, if_neg Bool.false_ne_true]
    rcases m.shortest_cases with ⟨-, -, hread⟩ | hexact
    · exact hread
    · rw [hexact]
      exact ofNumeral?_plain_exact (by simpa [isZero] using hzero) hfinite

theorem exists_text_eq_cons {m : Magnitude} (h : m.isInfinite = false) :
    ∃ c rest, m.text = c :: rest ∧ c.isDigit = true ∧
      ∀ c ∈ m.text, Lexeme.isNumeralPart c = true := by
  unfold text
  rw [h]
  split
  · contradiction
  · split
    · exact ⟨'0', [], rfl, rfl, by simp [Lexeme.isNumeralPart]⟩
    · exact Decimal.exists_plain_eq_cons _

/-- The text of a finite magnitude is **one word** in front of a text that does not go on with it.
-/
theorem made_text {m : Magnitude} (h : m.isInfinite = false) {behind : List Char}
    (hbehind : ∀ c ∈ behind.head?, Lexeme.isNumeralPart c = false ∧ Lexeme.isExponentMark c = false) :
    Lexeme.Made m.text (.number (.signed false m)) behind := by
  obtain ⟨c, rest, htext, hc, hparts⟩ := exists_text_eq_cons h
  have hread := ofNumeral?_text h
  rw [htext] at hparts hread ⊢
  refine .number hc ?_
  have hstop := fun c hc => (hbehind c hc).1
  rw [Lexeme.ofNumeral, Lexeme.takeWhile_append_of_stop hparts hstop,
    Lexeme.dropWhile_append_of_stop hparts hstop,
    Lexeme.exponent_of_stop fun c hc => (hbehind c hc).2]
  simp [Lexeme.exponentComplete, hread]

end Magnitude

end GridFormula
