import GridFormula.Proofs.CellBytes

/-!
# Which texts name cells

A cell name is letters and digits, each with an optional marker in front. Both ways between names
and cells are followed here: which texts are names, what a cell is called that a text named, and
which cells are named by what they are called.

Column letters are digits from one to twenty-six, so a column has one row of letters, and letters
one column: every capital is written back as it was read. The letters of a column are too many for a
name from the first column of four letters on, which is `AAAA`.

## Main definitions

* `Cell.Layout`: the parts of a text with the form of a name.

## Main results

* `Cell.columnName_columnPlace`: letters are the capitals of the column that they name.
* `Cell.toDigits_ofDigitChars`: digits are those of their value, but for leading zeros.
* `Cell.ofName?_eq_some_iff`: which texts name a cell, and which one.
* `Cell.ofName?_name_eq`: which cells are named by what they are called.
* `Cell.names_of_cells`: names and cells correspond.
-/

namespace GridFormula.Cell

/-! ### Columns -/

/-- The place of a letter is between one and twenty-six, and it is the place of its capital. -/
theorem columnLetter_letterPlace {c : Char} (h : c.isAlpha = true) :
    1 ≤ letterPlace c ∧ letterPlace c ≤ 26 ∧ columnLetter (letterPlace c - 1) = c.toUpper := by
  have hall : ∀ code < 0x80, (Char.ofNat code).isAlpha = true →
      columnLetter (letterPlace (Char.ofNat code) - 1) = (Char.ofNat code).toUpper := by
    decide +kernel
  have hc := hall c.toNat (toNat_lt_of_isAlpha h)
  rw [Char.ofNat_toNat] at hc
  exact ⟨Nat.le_add_left .., letterPlace_le h, hc h⟩

theorem columnPlace_append (letters : List Char) (last : Char) :
    columnPlace (letters ++ [last]) = columnPlace letters * 26 + letterPlace last := by
  rw [columnPlace, List.foldl_append, ← columnPlace]
  rfl

theorem columnPlace_pos {letters : List Char} (hne : letters ≠ []) : 1 ≤ columnPlace letters := by
  rw [← List.dropLast_append_getLast hne, columnPlace_append]
  exact Nat.le_add_left ..

/-- Letters are, but for their case, the letters of **the column that they name**. -/
theorem columnName_columnPlace {letters : List Char} (halpha : ∀ c ∈ letters, c.isAlpha = true)
    (hne : letters ≠ []) : columnName (columnPlace letters - 1) = letters.map Char.toUpper := by
  -- the last letter is the one that is taken off the number of a column
  induction letters using List.reverseRecOn with
  | nil => exact absurd rfl hne
  | append_singleton letters last ih =>
    rw [List.forall_mem_append] at halpha
    obtain ⟨hletters, hlast⟩ := halpha
    obtain ⟨hpos, hle, hcapital⟩ :=
      columnLetter_letterPlace (hlast last (List.mem_singleton_self _))
    rw [columnPlace_append, columnName]
    cases letters with
    | nil =>
      have hplace : columnPlace [] * 26 + letterPlace last - 1 = letterPlace last - 1 := by
        simp [columnPlace]
      rw [hplace, if_pos (by omega), hcapital]
      rfl
    | cons first others =>
      have hblock := columnPlace_pos (List.cons_ne_nil first others)
      have hquotient : (columnPlace (first :: others) * 26 + letterPlace last - 1) / 26 - 1 =
          columnPlace (first :: others) - 1 := by omega
      have hremainder : (columnPlace (first :: others) * 26 + letterPlace last - 1) % 26 =
          letterPlace last - 1 := by omega
      rw [if_neg (by omega), hquotient, hremainder, hcapital, ih hletters (List.cons_ne_nil _ _),
        List.map_append]
      rfl

/-! ### Rows -/

theorem digitChar_of_isDigit {c : Char} (h : c.isDigit = true) :
    c.toNat - '0'.toNat < 10 ∧ Nat.digitChar (c.toNat - '0'.toNat) = c := by
  have hcode : c.toNat < 58 := by
    simp only [Char.isDigit, Bool.and_eq_true, decide_eq_true_eq, UInt32.le_iff_toNat_le] at h
    exact Nat.lt_succ_of_le h.2
  have hall : ∀ code < 58, (Char.ofNat code).isDigit = true →
      (Char.ofNat code).toNat - '0'.toNat < 10 ∧
        Nat.digitChar ((Char.ofNat code).toNat - '0'.toNat) = Char.ofNat code := by
    decide
  have hc := hall c.toNat hcode
  rw [Char.ofNat_toNat] at hc
  exact hc h

/-- Digits behind those of a number are the digits of the number that they **make together**. -/
theorem toDigits_append_digits {digits : List Char} (hdigits : ∀ c ∈ digits, c.isDigit = true)
    {n : Nat} (hn : 0 < n) :
    Nat.toDigits 10 n ++ digits = Nat.toDigits 10 (Nat.ofDigitChars 10 digits n) := by
  induction digits generalizing n with
  | nil => simp
  | cons c rest ih =>
    obtain ⟨hc, hrest⟩ := List.forall_mem_cons.1 hdigits
    obtain ⟨hlt, hchar⟩ := digitChar_of_isDigit hc
    have hnext := Nat.toDigits_append_toDigits (by decide) hn hlt
    rw [Nat.toDigits_of_lt_base hlt, hchar] at hnext
    rw [Nat.ofDigitChars_cons, ← ih hrest (by omega), ← hnext, List.append_assoc]
    rfl

/-- Digits are those of their value, **but for leading zeros**. -/
theorem toDigits_ofDigitChars {digits : List Char} (hdigits : ∀ c ∈ digits, c.isDigit = true)
    (hpos : 0 < Nat.ofDigitChars 10 digits 0) :
    Nat.toDigits 10 (Nat.ofDigitChars 10 digits 0) = digits.dropWhile (· = '0') := by
  induction digits with
  | nil => cases hpos
  | cons c rest ih =>
    obtain ⟨hc, hrest⟩ := List.forall_mem_cons.1 hdigits
    obtain ⟨hlt, hchar⟩ := digitChar_of_isDigit hc
    rw [Nat.ofDigitChars_cons, Nat.mul_zero, Nat.zero_add] at hpos ⊢
    by_cases hzero : c = '0'
    · subst hzero
      rw [List.dropWhile_cons_of_pos (by decide)]
      exact ih hrest hpos
    · have hvalue : 0 < c.toNat - '0'.toNat := by
        refine Nat.pos_of_ne_zero fun heq => hzero ?_
        rw [← hchar, heq]
        rfl
      rw [List.dropWhile_cons_of_neg (by simpa using hzero), ← toDigits_append_digits hrest hvalue,
        Nat.toDigits_of_lt_base hlt, hchar]
      rfl

/-! ### The form of a name -/

/-- A text is **laid out** as letters and digits, each with an optional marker in front. -/
structure Layout (name letters digits : List Char) : Prop where
  /-- The text is made of the parts. -/
  parts : ∃ first second : List Char, (first = [] ∨ first = ['$']) ∧
    (second = [] ∨ second = ['$']) ∧ name = first ++ (letters ++ (second ++ digits))
  /-- The first part has nothing but letters. -/
  isAlpha : ∀ c ∈ letters, c.isAlpha = true
  /-- It has a letter. -/
  letters_ne_nil : letters ≠ []
  /-- The second part has nothing but digits. -/
  isDigit : ∀ c ∈ digits, c.isDigit = true

theorem exists_marker (text : List Char) :
    ∃ marker, (marker = [] ∨ marker = ['$']) ∧ text = marker ++ dropMarker text := by
  unfold dropMarker
  split
  · exact ⟨['$'], .inr rfl, rfl⟩
  · exact ⟨[], .inl rfl, rfl⟩

theorem dropMarker_append {marker text : List Char} (h : marker = [] ∨ marker = ['$'])
    (htext : ∀ c ∈ text.head?, c ≠ '$') : dropMarker (marker ++ text) = text := by
  rcases h with rfl | rfl
  · cases text with
    | nil => rfl
    | cons c rest => exact dropMarker_of_ne (htext c rfl) rest
  · rfl

theorem ne_marker_of_isAlpha {c : Char} (h : c.isAlpha = true) : c ≠ '$' := by
  rintro rfl
  cases h

theorem ne_marker_of_isDigit {c : Char} (h : c.isDigit = true) : c ≠ '$' := by
  rintro rfl
  cases h

section Layouts

variable {name letters digits : List Char}

/-- The parts of a name are found **from left to right**. -/
theorem Layout.split (h : Layout name letters digits) :
    (dropMarker name).takeWhile Char.isAlpha = letters ∧
      dropMarker ((dropMarker name).dropWhile Char.isAlpha) = digits := by
  obtain ⟨⟨first, second, hfirst, hsecond, rfl⟩, halpha, hne, hdigit⟩ := h
  have hletter : ∀ c ∈ (letters ++ (second ++ digits)).head?, c ≠ '$' := by
    intro c hc
    rw [List.head?_append_of_ne_nil _ hne] at hc
    exact ne_marker_of_isAlpha (halpha c (List.mem_of_mem_head? hc))
  have hstop : ∀ c ∈ (second ++ digits).head?, c.isAlpha = false := by
    intro c hc
    rcases hsecond with rfl | rfl
    · exact isAlpha_of_isDigit (hdigit c (List.mem_of_mem_head? hc))
    · cases hc
      rfl
  rw [dropMarker_append hfirst hletter, Lexeme.takeWhile_append_of_stop halpha hstop,
    Lexeme.dropWhile_append_of_stop halpha hstop]
  exact ⟨rfl, dropMarker_append hsecond fun c hc =>
    ne_marker_of_isDigit (hdigit c (List.mem_of_mem_head? hc))⟩

/-- Without markers a name is its letters and its digits. -/
theorem Layout.filter_eq (h : Layout name letters digits) :
    name.filter (· ≠ '$') = letters ++ digits := by
  obtain ⟨⟨first, second, hfirst, hsecond, rfl⟩, halpha, -, hdigit⟩ := h
  have hmarker : ∀ marker : List Char, marker = [] ∨ marker = ['$'] →
      marker.filter (· ≠ '$') = [] := by
    rintro _ (rfl | rfl) <;> rfl
  have hletters : letters.filter (· ≠ '$') = letters :=
    List.filter_eq_self.2 fun c hc => decide_eq_true (ne_marker_of_isAlpha (halpha c hc))
  have hdigits : digits.filter (· ≠ '$') = digits :=
    List.filter_eq_self.2 fun c hc => decide_eq_true (ne_marker_of_isDigit (hdigit c hc))
  rw [List.filter_append, List.filter_append, List.filter_append, hmarker first hfirst,
    hmarker second hsecond, hletters, hdigits]
  rfl

/-- What a text with the form of a name **stands for**. -/
theorem Layout.ofName?_eq (h : Layout name letters digits) : ofName? name =
    if letters.length ≤ maxColumnLetters ∧ 1 ≤ Nat.ofDigitChars 10 digits 0 ∧
      Nat.ofDigitChars 10 digits 0 ≤ maxRow
    then some ⟨Nat.ofDigitChars 10 digits 0 - 1, columnPlace letters - 1⟩ else none := by
  obtain ⟨hletters, hdigits⟩ := h.split
  have hnil : letters.isEmpty = false := List.isEmpty_eq_false_iff.2 h.letters_ne_nil
  have hall : digits.all Char.isDigit = true := List.all_eq_true.2 h.isDigit
  rw [ofName?]
  dsimp only
  rw [hletters, hdigits, hnil, hall]
  by_cases hmany : maxColumnLetters < letters.length
  · rw [if_pos (by simpa using hmany), if_neg fun hle => Nat.not_lt.2 hle.1 hmany]
  rw [if_neg (by simpa using hmany)]
  cases digits with
  | nil => simp
  | cons digit others =>
    rw [if_neg (by simp)]
    by_cases hrow : Nat.ofDigitChars 10 (digit :: others) 0 = 0 ∨
        maxRow < Nat.ofDigitChars 10 (digit :: others) 0
    · rw [if_pos (by simpa using hrow), if_neg (by omega)]
    · rw [if_neg (by simpa using hrow), if_pos (by omega)]

/-- Only a text with the form of a name stands for a cell. -/
theorem exists_layout {c : Cell} (h : ofName? name = some c) :
    ∃ letters digits, Layout name letters digits := by
  unfold ofName? at h
  dsimp only at h
  split at h
  · cases h
  · next hletters =>
    split at h
    · cases h
    · next hdigits =>
      obtain ⟨first, hfirst, hname⟩ := exists_marker name
      obtain ⟨second, hsecond, hrest⟩ := exists_marker ((dropMarker name).dropWhile Char.isAlpha)
      have hparts := List.takeWhile_append_dropWhile (p := Char.isAlpha) (l := dropMarker name)
      simp only [Bool.or_eq_true, not_or, Bool.not_eq_true, Bool.not_eq_false',
        List.isEmpty_eq_false_iff, decide_eq_true_eq] at hletters hdigits
      refine ⟨(dropMarker name).takeWhile Char.isAlpha, _, ⟨first, second, hfirst, hsecond, ?_⟩,
        fun c hc => List.mem_takeWhile_imp hc, hletters.1, List.all_eq_true.1 hdigits.2⟩
      rw [← hrest, hparts]
      exact hname

/-- A text **stands for a cell** exactly when it has the form of a name, with letters that are not
too many and a row that is one. -/
theorem ofName?_eq_some_iff {c : Cell} : ofName? name = some c ↔
    ∃ letters digits, Layout name letters digits ∧ letters.length ≤ maxColumnLetters ∧
      1 ≤ Nat.ofDigitChars 10 digits 0 ∧ Nat.ofDigitChars 10 digits 0 ≤ maxRow ∧
        c = ⟨Nat.ofDigitChars 10 digits 0 - 1, columnPlace letters - 1⟩ := by
  constructor
  · intro h
    obtain ⟨letters, digits, hlayout⟩ := exists_layout h
    rw [hlayout.ofName?_eq] at h
    split at h
    · next hbounds =>
      cases h
      exact ⟨letters, digits, hlayout, hbounds.1, hbounds.2.1, hbounds.2.2, rfl⟩
    · cases h
  · rintro ⟨letters, digits, hlayout, hletters, hpos, hrow, rfl⟩
    rw [hlayout.ofName?_eq, if_pos ⟨hletters, hpos, hrow⟩]

/-- What a cell is **called** that a text named: the letters of the text in capitals, and its digits
without leading zeros. -/
theorem Layout.name_eq (h : Layout name letters digits) {c : Cell} (hc : ofName? name = some c) :
    c.name = letters.map Char.toUpper ++ digits.dropWhile (· = '0') := by
  rw [h.ofName?_eq] at hc
  split at hc
  · next hbounds =>
    cases hc
    rw [Cell.name, columnName_columnPlace h.isAlpha h.letters_ne_nil,
      Nat.sub_add_cancel hbounds.2.1, toDigits_ofDigitChars h.isDigit hbounds.2.1]
  · cases hc

end Layouts

/-! ### From cells to names -/

/-- What a cell is called has the form of a name. -/
theorem layout_name (c : Cell) :
    Layout c.name (columnName c.col) (Nat.toDigits 10 (c.row + 1)) where
  parts := ⟨[], [], .inl rfl, .inl rfl, rfl⟩
  isAlpha d hd := by
    obtain ⟨index, hindex, rfl⟩ := exists_of_mem_columnName hd
    exact (columnLetter_spec index hindex).2.1
  letters_ne_nil := columnName_ne_nil c.col
  isDigit _ hd := Nat.isDigit_of_mem_toDigits (by decide) (by decide) hd

theorem namedColumns_eq : namedColumns = 18278 := by decide

/-- A column has at most three letters exactly when it comes before `AAAA`. -/
theorem length_columnName_le_iff {col : Nat} :
    (columnName col).length ≤ maxColumnLetters ↔ col < 18278 := by
  rw [← namedColumns_eq]
  refine ⟨fun hlength => ?_, length_columnName_le⟩
  have hplace := columnPlace_le (layout_name ⟨0, col⟩).isAlpha hlength
  rw [columnPlace_columnName] at hplace
  exact hplace

/-- A cell is **named by what it is called** exactly when its column comes before `AAAA`. -/
theorem ofName?_name_eq {c : Cell} (hrow : c.row < maxRow) :
    ofName? c.name = if c.col < 18278 then some c else none := by
  rw [(layout_name c).ofName?_eq, columnPlace_columnName, Nat.ofDigitChars_ten_toDigits]
  by_cases hcol : c.col < 18278
  · rw [if_pos hcol, if_pos ⟨length_columnName_le_iff.2 hcol, Nat.le_add_left .., hrow⟩]
    rfl
  · rw [if_neg hcol, if_neg fun h => hcol (length_columnName_le_iff.1 h.1)]

/-- A cell of a grid is **found again** by what it is called. -/
theorem cell?_name {grid : Grid} {text : List Char} {c : Cell} (h : grid.cell? text = some c) :
    grid.cell? c.name = some c := by
  obtain ⟨hname, hbounds⟩ := Option.filter_eq_some_iff.1 h
  exact Option.filter_eq_some_iff.2 ⟨ofName?_name (named_of_ofName? hname), hbounds⟩

/-- **Names and cells correspond.** A text names a cell if and only if it is one to three letters
and the digits of a row, each with an optional marker in front; the cell is called by the text
without markers, in capitals and without leading zeros. A cell with a row that has a number is named
by what it is called if its column has at most three letters, and no cell is named by that
otherwise. So a cell that a text names in a grid is named in that grid by what it is called. Reading
a name and writing a cell with words for its row and its column give the same. -/
theorem names_of_cells :
    (∀ text, (∃ c, ofName? text = some c) ↔
      ∃ letters digits, Layout text letters digits ∧ letters.length ≤ 3 ∧
        1 ≤ Nat.ofDigitChars 10 digits 0 ∧ Nat.ofDigitChars 10 digits 0 ≤ 4294967295) ∧
    (∀ text letters digits c, Layout text letters digits → ofName? text = some c →
      text.filter (· ≠ '$') = letters ++ digits ∧
        c.name = letters.map Char.toUpper ++ digits.dropWhile (· = '0')) ∧
    (∀ c, c.row < 4294967295 → ofName? c.name = if c.col < 18278 then some c else none) ∧
    (∀ (grid : Grid) text c, grid.cell? text = some c → grid.cell? c.name = some c) ∧
    (∀ text, read text = .ok (ofName? text)) ∧
    ∀ c, c.row < 4294967295 → write c = .ok c.name := by
  refine ⟨fun text => ⟨?_, ?_⟩, fun _ _ _ _ hlayout hc => ⟨hlayout.filter_eq, hlayout.name_eq hc⟩,
    fun _ => ofName?_name_eq, fun _ _ _ => cell?_name, read_eq, fun _ => write_of_row_lt⟩
  · rintro ⟨c, hc⟩
    obtain ⟨letters, digits, hlayout, hletters, hpos, hrow, -⟩ := ofName?_eq_some_iff.1 hc
    exact ⟨letters, digits, hlayout, hletters, hpos, hrow⟩
  · rintro ⟨letters, digits, hlayout, hletters, hpos, hrow⟩
    exact ⟨_, ofName?_eq_some_iff.2 ⟨letters, digits, hlayout, hletters, hpos, hrow, rfl⟩⟩

/-- The text `$xfd$0012` names a cell that is called `XFD12`; the cell in the column behind `ZZZ` of
that row is called `AAAA12`, which names none; and the last row is written without going beyond a
word. -/
theorem names_of_marked_cell :
    (Layout ['$', 'x', 'f', 'd', '$', '0', '0', '1', '2'] ['x', 'f', 'd'] ['0', '0', '1', '2'] ∧
      ofName? ['$', 'x', 'f', 'd', '$', '0', '0', '1', '2'] = some ⟨11, 16383⟩ ∧
      name ⟨11, 16383⟩ = ['X', 'F', 'D', '1', '2']) ∧
    (11 < 4294967295 ∧ name ⟨11, 18278⟩ = ['A', 'A', 'A', 'A', '1', '2'] ∧
      ofName? (name ⟨11, 18278⟩) = none) ∧
    (Grid.cell? ⟨12, 16384⟩ ['$', 'x', 'f', 'd', '$', '0', '0', '1', '2'] = some ⟨11, 16383⟩ ∧
      Grid.cell? ⟨12, 16384⟩ ['X', 'F', 'D', '1', '2'] = some ⟨11, 16383⟩) ∧
    (4294967294 < 4294967295 ∧ write ⟨4294967294, 0⟩ = .ok (name ⟨4294967294, 0⟩)) := by
  obtain ⟨-, hname, hback, hgrid, -, hwrite⟩ := names_of_cells
  have hlayout : Layout ['$', 'x', 'f', 'd', '$', '0', '0', '1', '2'] ['x', 'f', 'd']
      ['0', '0', '1', '2'] :=
    ⟨⟨['$'], ['$'], .inr rfl, .inr rfl, rfl⟩, List.all_eq_true.1 rfl, by decide,
      List.all_eq_true.1 rfl⟩
  have hcell : ofName? ['$', 'x', 'f', 'd', '$', '0', '0', '1', '2'] = some ⟨11, 16383⟩ := by
    decide +kernel
  have hin : Grid.cell? ⟨12, 16384⟩ ['$', 'x', 'f', 'd', '$', '0', '0', '1', '2'] =
      some ⟨11, 16383⟩ := by
    decide +kernel
  have hcalled : name ⟨11, 16383⟩ = ['X', 'F', 'D', '1', '2'] :=
    (hname _ _ _ _ hlayout hcell).2.trans (by decide)
  have hlast : 4294967294 < 4294967295 := Nat.lt_succ_self _
  refine ⟨⟨hlayout, hcell, hcalled⟩, ⟨by decide, by cbv, ?_⟩, ⟨hin, ?_⟩, hlast,
    hwrite ⟨4294967294, 0⟩ hlast⟩
  · exact (hback ⟨11, 18278⟩ (by decide)).trans (by decide)
  · rw [← hcalled]
    exact hgrid ⟨12, 16384⟩ _ _ hin

end GridFormula.Cell
