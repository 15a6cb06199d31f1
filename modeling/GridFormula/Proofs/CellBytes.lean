import GridFormula.Proofs.Cells
import GridFormula.Proofs.Traps

/-!
# Cell names in bytes

Cell names are read and written by programs with numbers of a fixed width. Reading goes over the
bytes of letters and digits, slices both out, and adds up the column in a word. Writing adds one to
the row and takes the letters of the column off its number from the last to the first.

A letter or a digit is a character of one byte, so the slices begin and end between characters. A
column has at most three letters, so its number stays small; no row that a name has is the largest
word, so one can be added to it; and the number that is left of a column is not zero where one is
taken off.

## Main definitions

* `Cell.read`, `Cell.write`: the programs.

## Main results

* `Cell.read_eq`: reading a name never traps.
* `Cell.write_eq`: writing a cell that was named never traps.
-/

namespace GridFormula.Cell

open Text (byteLength utf8Bytes)
open Checked (byteAt loop slice sliceFrom sub within)

/-- The largest word. -/
def maxWord : Nat := 4294967295

/-! ### Reading -/

/-- Whether a byte is a letter. -/
def isAlphaByte (b : UInt8) : Bool :=
  (0x41 ≤ b.toNat && b.toNat ≤ 0x5a) || (0x61 ≤ b.toNat && b.toNat ≤ 0x7a)

/-- Whether a byte is a digit. -/
def isDigitByte (b : UInt8) : Bool := 0x30 ≤ b.toNat && b.toNat ≤ 0x39

/-- One round of going over the bytes of a class. -/
def byteRound (p : UInt8 → Bool) (bytes : List UInt8) (i : Nat) : Checked (Nat ⊕ Nat) :=
  if i < bytes.length then do
    let b ← byteAt bytes i
    pure (if p b then .inl (i + 1) else .inr i)
  else pure (.inr i)

/-- The position behind the bytes of a class. -/
def bytesWhile (p : UInt8 → Bool) (bytes : List UInt8) (i : Nat) : Checked Nat :=
  loop (bytes.length - ·) (byteRound p bytes) i

/-- The position behind a marker `$`, if one stands there. -/
def skipMarker (bytes : List UInt8) (i : Nat) : Nat :=
  if bytes[i]? = some (asciiByte '$') then i + 1 else i

/-- The byte of a capital letter for that of a letter. -/
def capital (b : UInt8) : Nat :=
  if 0x61 ≤ b.toNat && b.toNat ≤ 0x7a then b.toNat - 0x20 else b.toNat

/-- The place of a column with one more letter. -/
def addLetter (place : Nat) (b : UInt8) : Checked Nat := do
  let place ← within maxWord (place * 26)
  let index ← sub (capital b) 'A'.toNat
  let place ← within maxWord (place + index)
  within maxWord (place + 1)

/-- The column that letters name, if they are not too many. -/
def readColumn (letters : List Char) : Checked (Option Nat) :=
  if maxColumnLetters < byteLength letters then pure none
  else do
    let place ← (utf8Bytes letters).foldlM addLetter 0
    return some (← sub place 1)

/-- The row that digits name, if it is one. -/
def readRow (digits : List Char) : Checked (Option Nat) :=
  let row := Nat.ofDigitChars 10 digits 0
  if maxWord < row || row = 0 then pure none
  else return some (← sub row 1)

/-- The cell in a column whose row stands from byte `position` on. -/
def readCell (name : List Char) (position col : Nat) : Checked (Option Cell) := do
  let bytes := utf8Bytes name
  let start := skipMarker bytes position
  let stop ← bytesWhile isDigitByte bytes start
  if stop = start || stop ≠ bytes.length then pure none
  else return (← readRow (← sliceFrom name start)).map (⟨·, col⟩)

/-- **Reading** a name. -/
def read (name : List Char) : Checked (Option Cell) := do
  let bytes := utf8Bytes name
  let start := skipMarker bytes 0
  let stop ← bytesWhile isAlphaByte bytes start
  if stop = start then pure none
  else
    match ← readColumn (← slice name start stop) with
    | none => pure none
    | some col => readCell name stop col

/-! ### Writing -/

/-- One round of writing a column: what is left of its number, and the letters so far. -/
def letterRound (s : Nat × List Char) : Checked ((Nat × List Char) ⊕ List Char) := do
  let letters := Char.ofNat (← within 255 ('A'.toNat + s.1 % 26)) :: s.2
  if s.1 / 26 = 0 then pure (.inr letters)
  else return .inl (← sub (s.1 / 26) 1, letters)

/-- The letters of a column. -/
def writeColumn (col : Nat) : Checked (List Char) := loop (·.1) letterRound (col, [])

/-- **Writing** a cell. -/
def write (cell : Cell) : Checked (List Char) := do
  let letters ← writeColumn cell.col
  return letters ++ Nat.toDigits 10 (← within maxWord (cell.row + 1))

/-! ### Writing without traps -/

theorem letterLoop_eq (col : Nat) (letters : List Char) :
    loop (·.1) letterRound (col, letters) = .ok (columnName col ++ letters) := by
  have hround (col : Nat) (letters : List Char) : letterRound (col, letters) =
      .ok (if col / 26 = 0 then .inr (columnLetter (col % 26) :: letters)
        else .inl (col / 26 - 1, columnLetter (col % 26) :: letters)) := by
    have hletter : within 255 ('A'.toNat + col % 26) = .ok ('A'.toNat + col % 26) := by
      refine Checked.within_of_le ?_
      have hcode : 'A'.toNat = 65 := rfl
      omega
    rw [letterRound]
    dsimp only
    rw [hletter, Checked.ok_bind]
    split
    · rfl
    · next hleft =>
      rw [Checked.sub_of_le (Nat.pos_of_ne_zero hleft)]
      rfl
  fun_induction columnName col generalizing letters with
  | case1 col hcol =>
    have hlast : col / 26 = 0 := Nat.div_eq_of_lt hcol
    rw [Checked.loop_of_done ((hround col letters).trans (by rw [if_pos hlast])),
      Nat.mod_eq_of_lt hcol]
    rfl
  | case2 col hcol ih =>
    have hmore : col / 26 ≠ 0 := by omega
    have hlt : col / 26 - 1 < col := by omega
    rw [Checked.loop_of_next ((hround col letters).trans (by rw [if_neg hmore])) hlt, ih,
      List.append_assoc]
    rfl

/-- Writing a cell **never traps** when there is a row behind its own, and gives its name. -/
theorem write_of_row_lt {cell : Cell} (h : cell.row < maxWord) : write cell = .ok cell.name := by
  have hrow : within maxWord (cell.row + 1) = .ok (cell.row + 1) := Checked.within_of_le h
  rw [write, writeColumn, letterLoop_eq, Checked.ok_bind, hrow, List.append_nil]
  rfl

/-- Writing a cell that was named **never traps**, and gives its name. -/
theorem write_eq {cell : Cell} (h : Named cell) : write cell = .ok cell.name :=
  write_of_row_lt h.row_lt

/-! ### Reading without traps -/

/-- A class of bytes **matches** a class of characters when it decides the class by the first byte
of a character, and the characters of the class have no other. -/
structure Matches (p : UInt8 → Bool) (q : Char → Bool) : Prop where
  /-- For ASCII characters the classes agree. -/
  ascii : ∀ code < 0x80, p (asciiByte (Char.ofNat code)) = q (Char.ofNat code)
  /-- No high byte is of the class. -/
  high : ∀ b, IsHigh b → p b = false
  /-- All characters of the class are ASCII characters. -/
  toNat_lt : ∀ c, q c = true → c.toNat < 0x80

theorem toNat_lt_of_isAlpha {c : Char} (h : c.isAlpha = true) : c.toNat < 0x80 := by
  simp only [Char.isAlpha, Char.isUpper, Char.isLower, Bool.or_eq_true, Bool.and_eq_true,
    decide_eq_true_eq, UInt32.le_iff_toNat_le, ge_iff_le] at h
  rcases h with h | h
  · exact Nat.lt_of_le_of_lt h.2 (by decide)
  · exact Nat.lt_of_le_of_lt h.2 (by decide)

theorem toNat_lt_of_isDigit {c : Char} (h : c.isDigit = true) : c.toNat < 0x80 := by
  simp only [Char.isDigit, Bool.and_eq_true, decide_eq_true_eq, UInt32.le_iff_toNat_le] at h
  exact Nat.lt_of_le_of_lt h.2 (by decide)

theorem matches_isAlpha : Matches isAlphaByte Char.isAlpha where
  ascii := by decide +kernel
  high b hb := by
    simp only [IsHigh] at hb
    simp only [isAlphaByte, Bool.or_eq_false_iff, Bool.and_eq_false_iff, decide_eq_false_iff_not]
    omega
  toNat_lt _ := toNat_lt_of_isAlpha

theorem matches_isDigit : Matches isDigitByte Char.isDigit where
  ascii := by decide +kernel
  high b hb := by
    simp only [IsHigh] at hb
    simp only [isDigitByte, Bool.and_eq_false_iff, decide_eq_false_iff_not]
    omega
  toNat_lt _ := toNat_lt_of_isDigit

section Bytes

variable {name tail : List Char} {i : Nat}

theorem Matches.exists_byteAt {p : UInt8 → Bool} {q : Char → Bool} (hmatches : Matches p q)
    {c : Char} {rest : List Char} (h : TailAt name i (c :: rest)) :
    ∃ b, byteAt (utf8Bytes name) i = .ok b ∧ i < (utf8Bytes name).length ∧ p b = q c := by
  rcases exists_bytes c with ⟨hc, hbytes⟩ | ⟨hc, hhigh⟩
  · obtain ⟨hbyte, hlt⟩ := h.byteAt hbytes
    have hascii := hmatches.ascii c.toNat hc
    rw [Char.ofNat_toNat] at hascii
    exact ⟨_, hbyte, hlt, hascii⟩
  · obtain ⟨b, more, hbytes⟩ := List.exists_cons_of_ne_nil (@String.utf8EncodeChar_ne_nil c)
    obtain ⟨hbyte, hlt⟩ := h.byteAt hbytes
    have hq : q c = false := by
      rw [← Bool.not_eq_true]
      intro hq
      have hlt := hmatches.toNat_lt c hq
      omega
    exact ⟨b, hbyte, hlt, by rw [hq, hmatches.high b (hhigh b (by simp [hbytes]))]⟩

theorem Matches.bytesWhile_eq {p : UInt8 → Bool} {q : Char → Bool} (hmatches : Matches p q)
    (h : TailAt name i tail) :
    bytesWhile p (utf8Bytes name) i = .ok (i + byteLength (tail.takeWhile q)) := by
  induction tail generalizing i with
  | nil =>
    have hend := h.add_byteLength
    rw [Text.byteLength_nil, ← Text.length_utf8Bytes] at hend
    exact Checked.loop_of_done (if_neg (by omega))
  | cons c rest ih =>
    obtain ⟨b, hbyte, hlt, hclass⟩ := hmatches.exists_byteAt h
    have hround : byteRound p (utf8Bytes name) i = .ok (if q c then .inl (i + 1) else .inr i) := by
      rw [byteRound, if_pos hlt, hbyte, Checked.ok_bind, hclass]
      rfl
    by_cases hc : q c = true
    · have hrest := h.rest
      have hsize := utf8Size_of_lt (hmatches.toNat_lt c hc)
      rw [if_pos hc] at hround
      rw [hsize] at hrest
      rw [bytesWhile, Checked.loop_of_next hround (by omega), ← bytesWhile, ih hrest,
        List.takeWhile_cons_of_pos hc, Text.byteLength_cons, hsize, Nat.add_assoc]
    · rw [if_neg hc] at hround
      rw [bytesWhile, Checked.loop_of_done hround, List.takeWhile_cons_of_neg hc]
      rfl

/-- Going over a marker goes to where the text without it begins. -/
theorem skipMarker_eq (h : TailAt name i tail) :
    TailAt name (skipMarker (utf8Bytes name) i) (dropMarker tail) := by
  rw [skipMarker]
  cases tail with
  | nil =>
    have hend : (utf8Bytes name)[i]? = none := by
      rw [← List.head?_drop, h.drop_utf8Bytes]
      rfl
    rw [hend, if_neg (by simp)]
    exact h
  | cons c rest =>
    obtain ⟨b, hbyte, -, hfirst⟩ := h.exists_byteAt
    rw [getElem?_eq_some_of_byteAt hbyte]
    by_cases hc : c = '$'
    · subst hc
      rw [if_pos (congrArg some ((hfirst _ (by decide)).2 rfl))]
      exact h.rest
    · rw [if_neg fun heq => hc ((hfirst _ (by decide)).1 (Option.some.inj heq)),
        dropMarker_of_ne hc]
      exact h

end Bytes

/-! ### Columns -/

theorem letterPlace_eq {c : Char} (h : c.isAlpha = true) :
    'A'.toNat ≤ capital (asciiByte c) ∧
      capital (asciiByte c) - 'A'.toNat + 1 = letterPlace c := by
  have hall : ∀ code < 0x80, (Char.ofNat code).isAlpha = true →
      'A'.toNat ≤ capital (asciiByte (Char.ofNat code)) ∧
        capital (asciiByte (Char.ofNat code)) - 'A'.toNat + 1 = letterPlace (Char.ofNat code) := by
    decide +kernel
  have hc := hall c.toNat (toNat_lt_of_isAlpha h)
  rw [Char.ofNat_toNat] at hc
  exact hc h

/-- One more letter keeps the place of a column in a word, when there is room for another digit of
twenty-seven. -/
theorem addLetter_eq {place : Nat} {c : Char} (h : c.isAlpha = true)
    (hplace : (place + 1) * 27 ≤ maxWord) :
    addLetter place (asciiByte c) = .ok (place * 26 + letterPlace c) := by
  obtain ⟨hle, heq⟩ := letterPlace_eq h
  have hletter := letterPlace_le h
  rw [addLetter, Checked.within_of_le (by omega), Checked.ok_bind, Checked.sub_of_le hle,
    Checked.ok_bind, Checked.within_of_le (by omega), Checked.ok_bind,
    Checked.within_of_le (by omega)]
  congr 1
  omega

theorem addLetters_eq {letters : List Char} (h : ∀ c ∈ letters, c.isAlpha = true) {place : Nat}
    (hplace : (place + 1) * 27 ^ letters.length ≤ maxWord) :
    (utf8Bytes letters).foldlM addLetter place =
      .ok (letters.foldl (fun place letter => place * 26 + letterPlace letter) place) := by
  induction letters generalizing place with
  | nil => rfl
  | cons c others ih =>
    obtain ⟨hc, hothers⟩ := List.forall_mem_cons.1 h
    have hbytes : String.utf8EncodeChar c = [asciiByte c] := by
      rcases exists_bytes c with ⟨-, hbytes⟩ | ⟨hhigh, -⟩
      · exact hbytes
      · have := toNat_lt_of_isAlpha hc
        omega
    have hletter := letterPlace_le hc
    rw [List.length_cons, pow_succ'] at hplace
    have hpos : 0 < 27 ^ others.length := Nat.pow_pos (by decide)
    have hroom : (place + 1) * 27 ≤ maxWord :=
      Nat.le_trans (Nat.mul_le_mul_left _ (Nat.le_mul_of_pos_right 27 hpos)) hplace
    have hnext : (place * 26 + letterPlace c + 1) * 27 ^ others.length ≤ maxWord := by
      rw [← Nat.mul_assoc] at hplace
      exact Nat.le_trans (Nat.mul_le_mul_right _ (by omega)) hplace
    rw [utf8Bytes_cons, hbytes, List.singleton_append, List.foldlM_cons, addLetter_eq hc hroom]
    exact ih hothers hnext

theorem byteLength_of_isAlpha {letters : List Char} (h : ∀ c ∈ letters, c.isAlpha = true) :
    byteLength letters = letters.length := by
  induction letters with
  | nil => rfl
  | cons c others ih =>
    obtain ⟨hc, hothers⟩ := List.forall_mem_cons.1 h
    rw [Text.byteLength_cons, utf8Size_of_lt (toNat_lt_of_isAlpha hc), ih hothers,
      List.length_cons, Nat.add_comm]

/-- Letters that are not too many name their column **without an overflow**. -/
theorem readColumn_eq {letters : List Char} (h : ∀ c ∈ letters, c.isAlpha = true)
    (hne : letters ≠ []) : readColumn letters =
      .ok (if maxColumnLetters < letters.length then none else some (columnPlace letters - 1)) := by
  rw [readColumn, byteLength_of_isAlpha h]
  split
  · rfl
  · next hfew =>
    have hroom : (0 + 1) * 27 ^ letters.length ≤ maxWord := by
      rw [Nat.zero_add, Nat.one_mul]
      exact Nat.le_trans (Nat.pow_le_pow_right (by decide) (Nat.not_lt.1 hfew)) (by decide)
    have hplace : 1 ≤ columnPlace letters := by
      rw [← List.dropLast_append_getLast hne, columnPlace, List.foldl_append]
      simp only [List.foldl_cons, List.foldl_nil, letterPlace]
      omega
    rw [addLetters_eq h hroom, Checked.ok_bind, ← columnPlace, Checked.sub_of_le hplace]
    rfl

/-! ### Names -/

theorem readRow_eq (digits : List Char) : readRow digits =
    .ok (if Nat.ofDigitChars 10 digits 0 = 0 || maxRow < Nat.ofDigitChars 10 digits 0 then none
      else some (Nat.ofDigitChars 10 digits 0 - 1)) := by
  have hword : maxWord = maxRow := rfl
  rw [readRow, hword, Bool.or_comm]
  split
  · rfl
  · next hrow =>
    have hpos : 1 ≤ Nat.ofDigitChars 10 digits 0 := by
      simp only [Bool.or_eq_true, decide_eq_true_eq, not_or] at hrow
      omega
    rw [Checked.sub_of_le hpos]
    rfl

/-- The position behind the digits is the end of the name when there is nothing else. -/
theorem digits_iff {name digits : List Char} {start : Nat} (h : TailAt name start digits) :
    (start + byteLength (digits.takeWhile Char.isDigit) = start ||
        start + byteLength (digits.takeWhile Char.isDigit) ≠ (utf8Bytes name).length) =
      (digits.isEmpty || !digits.all Char.isDigit) := by
  have hend := h.add_byteLength
  have hall : digits.all Char.isDigit = (digits.dropWhile Char.isDigit).isEmpty := by
    rw [Bool.eq_iff_iff, List.isEmpty_iff, List.dropWhile_eq_nil_iff, List.all_eq_true]
  rw [Text.length_utf8Bytes, ← hend, hall]
  have happend := List.takeWhile_append_dropWhile (p := Char.isDigit) (l := digits)
  have hbytes := congrArg byteLength happend
  rw [Text.byteLength_append] at hbytes
  rw [← hbytes]
  have hempty : digits.isEmpty = ((digits.takeWhile Char.isDigit).isEmpty &&
      (digits.dropWhile Char.isDigit).isEmpty) := by
    rw [Bool.eq_iff_iff, Bool.and_eq_true, List.isEmpty_iff, List.isEmpty_iff, List.isEmpty_iff,
      ← List.append_eq_nil_iff, happend]
  rw [hempty]
  cases digits.takeWhile Char.isDigit with
  | nil => cases digits.dropWhile Char.isDigit <;> simp
  | cons first others =>
    have hfirst := first.utf8Size_pos
    cases digits.dropWhile Char.isDigit with
    | nil => simp; omega
    | cons c rest =>
      have hc := c.utf8Size_pos
      simp
      omega

theorem readCell_eq {name tail : List Char} {position : Nat} (h : TailAt name position tail)
    (col : Nat) : readCell name position col =
      .ok (if (dropMarker tail).isEmpty || !(dropMarker tail).all Char.isDigit then none
        else if Nat.ofDigitChars 10 (dropMarker tail) 0 = 0 ||
          maxRow < Nat.ofDigitChars 10 (dropMarker tail) 0 then none
        else some ⟨Nat.ofDigitChars 10 (dropMarker tail) 0 - 1, col⟩) := by
  have hstart := skipMarker_eq h
  rw [readCell, matches_isDigit.bytesWhile_eq hstart, Checked.ok_bind, digits_iff hstart,
    hstart.sliceFrom,
    Checked.ok_bind, readRow_eq, Checked.ok_bind]
  split
  · rfl
  · split <;> rfl

/-- **Reading** a name never traps, and gives the cell that it stands for. -/
theorem read_eq (name : List Char) : read name = .ok (ofName? name) := by
  have hstart := skipMarker_eq (TailAt.whole name)
  have halpha : ∀ c ∈ (dropMarker name).takeWhile Char.isAlpha, c.isAlpha = true :=
    fun c hc => List.mem_takeWhile_imp hc
  have hletters := hstart
  rw [← List.takeWhile_append_dropWhile (p := Char.isAlpha) (l := dropMarker name)] at hletters
  rw [read, matches_isAlpha.bytesWhile_eq hstart, Checked.ok_bind, ofName?]
  generalize (dropMarker name).takeWhile Char.isAlpha = letters at *
  cases letters with
  | nil => exact if_pos rfl
  | cons letter others =>
    have hpos := letter.utf8Size_pos
    rw [if_neg (by rw [Text.byteLength_cons]; omega), hletters.slice, Checked.ok_bind,
      readColumn_eq halpha (List.cons_ne_nil _ _), Checked.ok_bind, List.isEmpty_cons,
      Bool.false_or]
    by_cases hmany : maxColumnLetters < (letter :: others).length
    · rw [if_pos hmany, if_pos (decide_eq_true hmany)]
      rfl
    · rw [if_neg hmany, if_neg (by simpa using hmany)]
      dsimp only
      rw [readCell_eq hletters.append]

end GridFormula.Cell
