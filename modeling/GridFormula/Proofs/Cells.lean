import GridFormula.Grid
import GridFormula.Proofs.Words
import Mathlib

/-!
# Cell names

A cell that was named in a text is named by its written form as well, though the text may have used
markers or small letters. The name is written with the letters of the column, at most three of them
where a name was read, and the number of the row.

## Main results

* `Cell.columnPlace_columnName`: the letters of a column name the column.
* `Cell.ofName?_name`: a cell that some name stands for is read back from its own name.
-/

namespace GridFormula.Cell

-- The powers are those of natural numbers, also where an algebra library has its own.
attribute [local instance (high)] instPowNat

open Lexeme (isNameStart isNamePart)

/-! ### Columns -/

theorem columnLetter_spec : ∀ index < 26, letterPlace (columnLetter index) = index + 1 ∧
    (columnLetter index).isAlpha = true ∧ isNameStart (columnLetter index) = true ∧
      (columnLetter index).isDigit = false ∧ columnLetter index ≠ '$' := by
  decide +kernel

theorem exists_of_mem_columnName {col : Nat} {c : Char} (h : c ∈ columnName col) :
    ∃ index < 26, c = columnLetter index := by
  fun_induction columnName col with
  | case1 col hcol => exact ⟨col, hcol, List.mem_singleton.1 h⟩
  | case2 col _ ih =>
    rcases List.mem_append.1 h with h | h
    · exact ih h
    · exact ⟨col % 26, Nat.mod_lt _ (by decide), List.mem_singleton.1 h⟩

theorem columnName_ne_nil (col : Nat) : columnName col ≠ [] := by
  rw [columnName]
  split <;> simp

/-- The letters of a column **name** the column, counted from one. -/
theorem columnPlace_columnName (col : Nat) : columnPlace (columnName col) = col + 1 := by
  fun_induction columnName col with
  | case1 col hcol => simp [columnPlace, (columnLetter_spec col hcol).1]
  | case2 col hcol ih =>
    have hletter := (columnLetter_spec (col % 26) (Nat.mod_lt _ (by decide))).1
    rw [columnPlace, List.foldl_append, ← columnPlace, ih, List.foldl_cons, List.foldl_nil, hletter]
    omega

/-- The number of columns whose names have at most three letters. -/
def namedColumns : Nat := 26 + 26 ^ (2 : Nat) + 26 ^ (3 : Nat)

theorem length_columnName_le {col : Nat} (h : col < namedColumns) :
    (columnName col).length ≤ maxColumnLetters := by
  have hone : ∀ col < 26, (columnName col).length = 1 := by
    intro col hcol
    rw [columnName, if_pos hcol]
    rfl
  have htwo : ∀ col < 26 + 26 ^ (2 : Nat), (columnName col).length ≤ 2 := by
    intro col hcol
    rw [columnName]
    split
    · exact Nat.le_succ 1
    · rw [List.length_append, hone _ (by omega)]
      exact Nat.le_refl 2
  unfold namedColumns at h
  rw [columnName, maxColumnLetters]
  split
  · exact Nat.le_add_left ..
  · have hrest := htwo (col / 26 - 1) (by omega)
    rw [List.length_append]
    exact Nat.succ_le_succ hrest

theorem letterPlace_le {c : Char} (h : c.isAlpha = true) : letterPlace c ≤ 26 := by
  have hcode : c.toNat ≤ 122 := by
    simp only [Char.isAlpha, Char.isUpper, Char.isLower, Bool.or_eq_true, Bool.and_eq_true,
      decide_eq_true_eq, UInt32.le_iff_toNat_le, ge_iff_le] at h
    rcases h with h | h
    · exact Nat.le_trans h.2 (by decide)
    · exact h.2
  have hall : ∀ code ≤ 122, (Char.ofNat code).isAlpha = true →
      letterPlace (Char.ofNat code) ≤ 26 := by
    decide +kernel
  rw [← Char.ofNat_toNat c] at h ⊢
  exact hall c.toNat hcode h

theorem columnPlace_le {letters : List Char} (halpha : ∀ c ∈ letters, c.isAlpha = true)
    (hlength : letters.length ≤ maxColumnLetters) : columnPlace letters ≤ namedColumns := by
  match letters, hlength with
  | [], _ => exact Nat.zero_le _
  | [a], _ =>
    have ha := letterPlace_le (halpha a (by simp))
    simp only [columnPlace, List.foldl, namedColumns]
    omega
  | [a, b], _ =>
    have ha := letterPlace_le (halpha a (by simp))
    have hb := letterPlace_le (halpha b (by simp))
    simp only [columnPlace, List.foldl, namedColumns]
    omega
  | [a, b, c], _ =>
    have ha := letterPlace_le (halpha a (by simp))
    have hb := letterPlace_le (halpha b (by simp))
    have hc := letterPlace_le (halpha c (by simp))
    simp only [columnPlace, List.foldl, namedColumns]
    omega

/-! ### Names -/

/-- What bounds the cells that names stand for. -/
structure Named (c : Cell) : Prop where
  /-- The number of the row is not too large. -/
  row_lt : c.row < maxRow
  /-- The letters of the column are not too many. -/
  col_lt : c.col < namedColumns

theorem named_of_ofName? {n : List Char} {c : Cell} (h : ofName? n = some c) : Named c := by
  unfold ofName? at h
  dsimp only at h
  split at h
  · cases h
  · next hletters =>
    split at h
    · cases h
    · split at h
      · cases h
      · next hrow =>
        cases h
        simp only [Bool.or_eq_true, decide_eq_true_eq, not_or, Nat.not_lt] at hletters hrow
        have hplace := columnPlace_le (List.all_eq_true.1 List.all_takeWhile) hletters.2
        refine ⟨?_, ?_⟩
        · dsimp only
          omega
        · dsimp only
          have : 0 < namedColumns := by decide
          omega

theorem dropMarker_of_ne {c : Char} (h : c ≠ '$') (rest : List Char) :
    dropMarker (c :: rest) = c :: rest := by
  unfold dropMarker
  split
  · next heq =>
    cases heq
    exact absurd rfl h
  · rfl

theorem isAlpha_of_isDigit {c : Char} (h : c.isDigit = true) : c.isAlpha = false := by
  have hcode : c.toNat ≤ 57 := by
    simp only [Char.isDigit, Bool.and_eq_true, decide_eq_true_eq, UInt32.le_iff_toNat_le] at h
    exact h.2
  have hall : ∀ code ≤ 57, (Char.ofNat code).isAlpha = false := by decide
  rw [← Char.ofNat_toNat c]
  exact hall c.toNat hcode

/-- A cell is **read back** from its name. -/
theorem ofName?_name {c : Cell} (h : Named c) : ofName? c.name = some c := by
  obtain ⟨hrow, hcol⟩ := h
  obtain ⟨first, letters, hletters⟩ := List.exists_cons_of_ne_nil (columnName_ne_nil c.col)
  obtain ⟨digit, digits, hdigits⟩ :=
    List.exists_cons_of_ne_nil (Nat.toDigits_ne_nil (b := 10) (n := c.row + 1))
  have hdigit : ∀ d ∈ digit :: digits, d.isDigit = true := fun d hd =>
    Nat.isDigit_of_mem_toDigits (by decide) (by decide) (hdigits ▸ hd)
  have halpha : ∀ d ∈ first :: letters, d.isAlpha = true := by
    rw [← hletters]
    intro d hd
    obtain ⟨index, hindex, rfl⟩ := exists_of_mem_columnName hd
    exact (columnLetter_spec index hindex).2.1
  have hmarker : first ≠ '$' ∧ digit ≠ '$' := by
    refine ⟨?_, ?_⟩ <;> rintro rfl
    · exact absurd (halpha '$' (by simp)) (by decide)
    · exact absurd (hdigit '$' (by simp)) (by decide)
  have hstop : ∀ d ∈ (digit :: digits).head?, d.isAlpha = false := by
    intro d hd
    cases hd
    exact isAlpha_of_isDigit (hdigit digit (by simp))
  have hplace := columnPlace_columnName c.col
  have hlength := length_columnName_le hcol
  have hvalue := Nat.ofDigitChars_ten_toDigits (n := c.row + 1)
  rw [hletters] at hplace hlength
  rw [hdigits] at hvalue
  unfold ofName? name
  rw [hletters, hdigits, List.cons_append, dropMarker_of_ne hmarker.1, ← List.cons_append]
  dsimp only
  rw [Lexeme.takeWhile_append_of_stop halpha hstop, Lexeme.dropWhile_append_of_stop halpha hstop,
    dropMarker_of_ne hmarker.2, hplace, hvalue]
  rw [if_neg (by simpa using hlength), if_neg (by simpa using hdigit), if_neg (by simp; omega)]
  rfl

end GridFormula.Cell
