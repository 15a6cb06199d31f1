/-!
# Blank characters

The characters that separate words without being part of one: the *White_Space* property of the
Unicode character database, and trimming them off a text.

## Main definitions

* `isBlank`: the blank characters.
* `trimStart`, `trimEnd`, `trim`: a text without the blanks at its ends.
* `allBlank`: the texts that trimming leaves empty.
* `blankCodes`: the blank characters by their code points.
* `Padded`: a text with blanks at its ends.
-/

namespace GridFormula.Text

/-- Whether `c` is **blank**. -/
def isBlank (c : Char) : Bool :=
  let code := c.toNat
  (0x09 ≤ code && code ≤ 0x0d) || code = 0x20 || code = 0x85 || code = 0xa0 ||
    code = 0x1680 || (0x2000 ≤ code && code ≤ 0x200a) || code = 0x2028 || code = 0x2029 ||
    code = 0x202f || code = 0x205f || code = 0x3000

/-- The text without the blanks at its start. -/
def trimStart (text : List Char) : List Char :=
  text.dropWhile isBlank

/-- The text without the blanks at its end. -/
def trimEnd : List Char → List Char
  | [] => []
  | c :: rest =>
    match trimEnd rest with
    | [] => if isBlank c then [] else [c]
    | kept => c :: kept

/-- The text without the blanks at either end. -/
def trim (text : List Char) : List Char :=
  trimEnd (trimStart text)

/-- Whether the text holds nothing but blanks. -/
def allBlank (text : List Char) : Bool :=
  text.all isBlank

/-! ### Code points -/

/-- The code points of the blank characters. -/
def blankCodes : List Nat :=
  List.range' 0x09 5 ++ [0x20, 0x85, 0xa0, 0x1680] ++ List.range' 0x2000 11 ++
    [0x2028, 0x2029, 0x202f, 0x205f, 0x3000]

theorem toNat_mem_blankCodes {c : Char} (h : isBlank c = true) : c.toNat ∈ blankCodes := by
  simp only [isBlank, Bool.or_eq_true, Bool.and_eq_true, decide_eq_true_eq] at h
  simp only [blankCodes, List.mem_append, List.mem_range'_1, List.mem_cons, List.not_mem_nil,
    or_false]
  omega

/-- A class of characters that holds no blank code point holds no blank. -/
theorem eq_false_of_isBlank {p : Char → Bool}
    (hcodes : ∀ code ∈ blankCodes, p (Char.ofNat code) = false) {c : Char}
    (h : isBlank c = true) : p c = false := by
  have hc := hcodes _ (toNat_mem_blankCodes h)
  rwa [Char.ofNat_toNat] at hc

/-! ### Laws of trimming -/

theorem trimEnd_eq_nil_iff (text : List Char) : trimEnd text = [] ↔ allBlank text = true := by
  induction text with
  | nil => simp [trimEnd, allBlank]
  | cons c rest ih =>
    cases h : trimEnd rest with
    | nil =>
      have hrest : rest.all isBlank = true := ih.1 h
      by_cases hc : isBlank c = true <;> simp [trimEnd, allBlank, h, hc]
      simpa using hrest
    | cons d kept =>
      have hrest : rest.all isBlank = false := by
        cases hall : rest.all isBlank with
        | false => rfl
        | true => rw [ih.2 hall] at h; cases h
      simp [trimEnd, allBlank, h, hrest]

theorem allBlank_trimStart (text : List Char) : allBlank (trimStart text) = allBlank text := by
  induction text with
  | nil => rfl
  | cons c rest ih =>
    by_cases hc : isBlank c = true <;> simp_all [trimStart, allBlank]

/-- Trimming leaves nothing exactly when there is nothing but blanks. -/
theorem trim_eq_nil_iff (text : List Char) : trim text = [] ↔ allBlank text = true := by
  rw [trim, trimEnd_eq_nil_iff, allBlank_trimStart]

/-- The end that trimming takes off a text is blank. -/
theorem exists_trimEnd_append (text : List Char) :
    ∃ blanks, allBlank blanks = true ∧ text = trimEnd text ++ blanks := by
  induction text with
  | nil => exact ⟨[], rfl, rfl⟩
  | cons c rest ih =>
    obtain ⟨blanks, hblank, hrest⟩ := ih
    cases h : trimEnd rest with
    | nil =>
      rw [h, List.nil_append] at hrest
      by_cases hc : isBlank c = true
      · exact ⟨c :: rest, by simpa [allBlank, hc, hrest] using hblank, by simp [trimEnd, h, hc]⟩
      · exact ⟨rest, by rwa [hrest], by simp [trimEnd, h, hc]⟩
    | cons d kept =>
      refine ⟨blanks, hblank, ?_⟩
      rw [trimEnd, h, List.cons_append, ← h, ← hrest]

/-- Trimming takes the leading blanks and a blank end off a text. -/
theorem exists_trim_append (text : List Char) :
    ∃ blanks, allBlank blanks = true ∧ text = text.takeWhile isBlank ++ trim text ++ blanks := by
  obtain ⟨blanks, hblank, hend⟩ := exists_trimEnd_append (trimStart text)
  refine ⟨blanks, hblank, ?_⟩
  rw [trim, List.append_assoc, ← hend, trimStart, List.takeWhile_append_dropWhile]

theorem takeWhile_of_allBlank {text : List Char} (h : allBlank text = true) :
    text.takeWhile isBlank = text := by
  rw [← List.append_nil text, List.takeWhile_append_of_pos (List.all_eq_true.1 h)]
  rfl

theorem dropWhile_of_allBlank {text : List Char} (h : allBlank text = true) :
    text.dropWhile isBlank = [] := by
  rw [← List.append_nil text, List.dropWhile_append_of_pos (List.all_eq_true.1 h)]
  rfl

theorem takeWhile_blanks_append {blanks : List Char} (h : allBlank blanks = true) {c : Char}
    (hc : isBlank c = false) (rest : List Char) :
    (blanks ++ c :: rest).takeWhile isBlank = blanks := by
  rw [List.takeWhile_append_of_pos fun d hd => List.all_eq_true.1 h d hd,
    List.takeWhile_cons_of_neg (by simp [hc]), List.append_nil]

theorem dropWhile_blanks_append {blanks : List Char} (h : allBlank blanks = true) {c : Char}
    (hc : isBlank c = false) (rest : List Char) :
    (blanks ++ c :: rest).dropWhile isBlank = c :: rest := by
  rw [List.dropWhile_append_of_pos fun d hd => List.all_eq_true.1 h d hd,
    List.dropWhile_cons_of_neg (by simp [hc])]

/-- A text is blank up to its first character that is not. -/
theorem exists_blanks_append (text : List Char) :
    allBlank text = true ∨ ∃ blanks c rest, text = blanks ++ c :: rest ∧
      allBlank blanks = true ∧ isBlank c = false := by
  have hblanks : allBlank (text.takeWhile isBlank) = true := List.all_takeWhile
  have htext := List.takeWhile_append_dropWhile (p := isBlank) (l := text)
  cases hrest : text.dropWhile isBlank with
  | nil =>
    rw [hrest, List.append_nil] at htext
    rw [htext] at hblanks
    exact .inl hblanks
  | cons c rest =>
    rw [hrest] at htext
    have hc := List.head?_dropWhile_not isBlank text
    rw [hrest] at hc
    exact .inr ⟨_, c, rest, htext.symm, hblanks, by simpa using hc⟩

/-! ### Padding -/

/-- A text is **padded** out to another by blanks at its ends. -/
def Padded (text padded : List Char) : Prop :=
  ∃ before behind, allBlank before = true ∧ allBlank behind = true ∧
    padded = before ++ text ++ behind

theorem padded_trim (text : List Char) : Padded (trim text) text := by
  obtain ⟨blanks, hblanks, htext⟩ := exists_trim_append text
  exact ⟨_, blanks, List.all_takeWhile, hblanks, htext⟩

theorem trimEnd_append_of_allBlank (text : List Char) {blanks : List Char}
    (h : allBlank blanks = true) : trimEnd (text ++ blanks) = trimEnd text := by
  induction text with
  | nil => exact (trimEnd_eq_nil_iff blanks).2 h
  | cons c rest ih => rw [List.cons_append, trimEnd, trimEnd, ih]

theorem trimStart_append_of_allBlank {blanks : List Char} (h : allBlank blanks = true)
    (text : List Char) : trimStart (blanks ++ text) = trimStart text := by
  rw [trimStart, List.dropWhile_append_of_pos fun c hc => List.all_eq_true.1 h c hc]
  rfl

/-- Padding is what trimming takes off. -/
theorem Padded.trim_eq {text padded : List Char} (h : Padded text padded) :
    trim padded = trim text := by
  obtain ⟨before, behind, hbefore, hbehind, rfl⟩ := h
  rw [trim, trim, List.append_assoc, trimStart_append_of_allBlank hbefore, trimStart,
    List.dropWhile_append]
  split
  · next hall =>
    have hnone : text.dropWhile isBlank = [] := List.isEmpty_iff.1 hall
    rw [dropWhile_of_allBlank hbehind, trimStart, hnone]
  · exact trimEnd_append_of_allBlank _ hbehind

theorem trim_sublist (text : List Char) : (trim text).Sublist text := by
  obtain ⟨before, behind, -, -, htext⟩ := padded_trim text
  have hsublist := (List.sublist_append_right before (trim text)).trans
    (List.sublist_append_left (before ++ trim text) behind)
  rwa [← htext] at hsublist

theorem trim_trim (text : List Char) : trim (trim text) = trim text :=
  (padded_trim text).trim_eq.symm

/-- Padding does not make a text blank. -/
theorem Padded.allBlank_eq {text padded : List Char} (h : Padded text padded) :
    allBlank padded = allBlank text := by
  obtain ⟨before, behind, hbefore, hbehind, rfl⟩ := h
  simp only [allBlank, List.all_append] at *
  simp [hbefore, hbehind]

end GridFormula.Text
