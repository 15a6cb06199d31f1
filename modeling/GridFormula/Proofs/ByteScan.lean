import GridFormula.Proofs.Arguments
import GridFormula.Proofs.Traps

/-!
# Scanning bytes

The scan of argument text as a program on bytes: it reads one byte after the other, jumps over
quotations and groups to the byte behind them, and over two bytes at a backslash, which may leave it
in the middle of a character. Brackets of the group's kind are counted up and down.

The program never traps, whatever the text and wherever it starts, and gives what the scan on
characters gives. The invariant is that it stands where a character begins whenever it looks at an
ASCII byte. In the middle of a character there are only bytes that it steps over, so it comes to the
next character with nothing else changed.

## Main definitions

* `Scan.quoteEnd`, `Scan.bracketEnd`: where a quotation or a group ends.
* `Scan.separatorFrom`: the next separator.
* `Scan.tokens`: the pieces between separators, cut out one after the other.

## Main results

* `Scan.quoteEnd_eq`, `Scan.bracketEnd_eq`: both are found without a trap.
* `Scan.tokens_eq`: the pieces are those of the scan on characters, for any ASCII separator.
-/

namespace GridFormula.Scan

open Text (byteLength utf8Bytes dropBytes?)
open Checked (byteAt loop)

/-! ### The program -/

/-- One round of the search for the byte that closes a quotation. -/
def quoteRound (bytes : List UInt8) (mark : UInt8) (i : Nat) : Checked (Nat ⊕ Option Nat) :=
  if i < bytes.length then do
    let b ← byteAt bytes i
    if b = asciiByte '\\' then pure (.inl (i + 2))
    else if b = mark then pure (.inr (some i))
    else pure (.inl (i + 1))
  else pure (.inr none)

/-- The position of the byte that **closes the quotation** at byte `start`. -/
def quoteEnd (bytes : List UInt8) (start : Nat) : Checked (Option Nat) :=
  match bytes[start]? with
  | none => pure none
  | some mark => loop (bytes.length - ·) (quoteRound bytes mark) (start + 1)

/-- One round of the search for the bracket that closes a group, with the brackets that are open. -/
def bracketRound (bytes : List UInt8) (bracket : Bracket) (s : Nat × Nat) :
    Checked ((Nat × Nat) ⊕ Option Nat) :=
  let (i, depth) := s
  if i < bytes.length then do
    let b ← byteAt bytes i
    if b = asciiByte '\\' then pure (.inl (i + 2, depth))
    else if b = asciiByte '"' ∨ b = asciiByte '\'' then
      match ← quoteEnd bytes i with
      | none => pure (.inr none)
      | some stop => pure (.inl (stop + 1, depth))
    else if b = asciiByte bracket.opener then pure (.inl (i + 1, depth + 1))
    else if b = asciiByte bracket.closer then
      let depth ← Checked.sub depth 1
      if depth = 0 then pure (.inr (some i)) else pure (.inl (i + 1, depth))
    else pure (.inl (i + 1, depth))
  else pure (.inr none)

/-- The search for the bracket that closes a group, from byte `i` on with `depth` open brackets. -/
def bracketLoop (bytes : List UInt8) (bracket : Bracket) (depth i : Nat) : Checked (Option Nat) :=
  loop (bytes.length - ·.1) (bracketRound bytes bracket) (i, depth)

/-- The position of the bracket that **closes the group** at byte `start`. -/
def bracketEnd (bytes : List UInt8) (bracket : Bracket) (start : Nat) : Checked (Option Nat) :=
  if bytes[start]? = some (asciiByte bracket.opener) then bracketLoop bytes bracket 0 start
  else pure none

/-- How the scan goes on from a byte at the top. -/
inductive Step where
  /-- To the next byte. -/
  | plain
  /-- At some position behind what is hidden. -/
  | resume (position : Nat)
  /-- Not at all, behind something that is never closed. -/
  | unterminated

/-- The step over what begins at a byte and ends at `stop`. -/
def Step.over : Option Nat → Step
  | some stop => .resume (stop + 1)
  | none => .unterminated

/-- The step at byte `i`. -/
def stepAt (bytes : List UInt8) (i : Nat) : Checked Step := do
  let b ← byteAt bytes i
  if b = asciiByte '\\' then pure (.resume (i + 2))
  else if b = asciiByte '"' ∨ b = asciiByte '\'' then return .over (← quoteEnd bytes i)
  else if b = asciiByte '(' then return .over (← bracketEnd bytes .round i)
  else if b = asciiByte '[' then return .over (← bracketEnd bytes .square i)
  else if b = asciiByte '\x7b' then return .over (← bracketEnd bytes .curly i)
  else pure .plain

/-- Where the search for a separator goes on after a step at byte `i`. -/
def Step.next (i : Nat) : Step → Nat ⊕ Option Nat
  | .plain => .inl (i + 1)
  | .resume position => .inl position
  | .unterminated => .inr none

/-- One round of the search for a separator. -/
def separatorRound (bytes : List UInt8) (sep : Char) (i : Nat) : Checked (Nat ⊕ Option Nat) :=
  if i < bytes.length then do
    let b ← byteAt bytes i
    if b = asciiByte sep then pure (.inr (some i))
    else return (← stepAt bytes i).next i
  else pure (.inr none)

/-- The search for a separator from byte `i` on. -/
def separatorLoop (bytes : List UInt8) (sep : Char) (i : Nat) : Checked (Option Nat) :=
  loop (bytes.length - ·) (separatorRound bytes sep) i

/-- The position of the **next separator** from byte `start` on. It has to be an ASCII character. -/
def separatorFrom (bytes : List UInt8) (sep : Char) (start : Nat) : Checked (Option Nat) := do
  Checked.require (sep.toNat < 0x80)
  separatorLoop bytes sep start

/-- One round of cutting a text up: the position of the next piece, and the pieces before it. -/
def tokenRound (text : List Char) (sep : Char) (s : Nat × List (Nat × List Char)) :
    Checked ((Nat × List (Nat × List Char)) ⊕ List (Nat × List Char)) := do
  let (start, pieces) := s
  match ← separatorFrom (utf8Bytes text) sep start with
  | some stop =>
    let piece ← Checked.slice text start stop
    pure (.inl (stop + 1, pieces ++ [(start, piece)]))
  | none =>
    let piece ← Checked.sliceFrom text start
    pure (.inr (pieces ++ [(start, piece)]))

/-- The **pieces** of a text between separators, each with its byte position. -/
def tokens (text : List Char) (sep : Char) : Checked (List (Nat × List Char)) :=
  loop (byteLength text - ·.1) (tokenRound text sep) (0, [])

/-! ### Escapes -/

/-- **Induction over a text by its escapes**: a backslash is taken together with the character
behind it. -/
@[elab_as_elim]
theorem inductEscapes {motive : List Char → Prop} (nil : motive []) (backslash : motive ['\\'])
    (escape : ∀ d rest, motive rest → motive ('\\' :: d :: rest))
    (char : ∀ c rest, c ≠ '\\' → motive rest → motive (c :: rest)) (text : List Char) :
    motive text := by
  match text with
  | [] => exact nil
  | c :: rest =>
    by_cases hc : c = '\\'
    · subst hc
      match rest with
      | [] => exact backslash
      | d :: rest => exact escape d rest (inductEscapes nil backslash escape char rest)
    · exact char c rest hc (inductEscapes nil backslash escape char rest)

/-! ### Cuts -/

/-- The byte position of the character that a text is **cut at**, when the text starts at
`position`. -/
def cutAt (position : Nat) (cut : Option (List Char × List Char)) : Option Nat :=
  cut.map fun cut => position + byteLength cut.1

theorem cutAt_cons (position : Nat) (c : Char) (cut : Option (List Char × List Char)) :
    cutAt position (cut.map fun cut => (c :: cut.1, cut.2)) =
      cutAt (position + c.utf8Size) cut := by
  cases cut with
  | none => rfl
  | some cut => exact congrArg some (Nat.add_assoc ..).symm

theorem map_add_cutAt (position n : Nat) (cut : Option (List Char × List Char)) :
    (cutAt position cut).map (· + n) = cutAt (position + n) cut := by
  cases cut with
  | none => rfl
  | some cut => exact congrArg some (Nat.add_right_comm ..)

theorem map_cutAt_zero (n : Nat) (cut : Option (List Char × List Char)) :
    (cutAt 0 cut).map (n + ·) = cutAt n cut := by
  cases cut with
  | none => rfl
  | some cut => exact congrArg some (congrArg (n + ·) (Nat.zero_add _))

/-- Wherever something is hidden, a backslash hides the character behind it and nothing else. -/
theorem splitAtTop_escape {s : State} {rest : List Char} (hescaped : s.escaped = false)
    (htop : s.isTop = false) (d : Char) :
    splitAtTop s ('\\' :: d :: rest) =
      ((splitAtTop s rest).map fun cut => (d :: cut.1, cut.2)).map
        fun cut => ('\\' :: cut.1, cut.2) := by
  obtain ⟨group, quote, escaped⟩ := s
  obtain rfl : escaped = false := hescaped
  have hslash : State.step ⟨group, quote, false⟩ '\\' = ⟨group, quote, true⟩ := rfl
  have hhidden : State.step ⟨group, quote, true⟩ d = ⟨group, quote, false⟩ := rfl
  have hopen : (State.mk group quote true).isTop = false := by simp [State.isTop]
  rw [splitAtTop_cons hslash hopen, splitAtTop_cons hhidden htop]

/-! ### Quotations -/

theorem bytesBeforeMark?_cons {b : UInt8} (hb : b ≠ backslashByte) (mark : UInt8)
    (more : List UInt8) : bytesBeforeMark? mark (b :: more) =
      if b = mark then some 0 else (bytesBeforeMark? mark more).map (· + 1) := by
  cases more <;> simp [bytesBeforeMark?, hb]

theorem bytesBeforeMark?_backslash (mark : UInt8) (more : List UInt8) :
    bytesBeforeMark? mark (backslashByte :: more) =
      (bytesBeforeMark? mark (more.drop 1)).map (· + 2) := by
  cases more <;> simp [bytesBeforeMark?]

/-- The search goes through the bytes as `bytesBeforeMark?` does. -/
theorem quoteLoop_eq (bytes : List UInt8) (mark : UInt8) (i : Nat) :
    loop (bytes.length - ·) (quoteRound bytes mark) i =
      .ok ((bytesBeforeMark? mark (bytes.drop i)).map (i + ·)) := by
  induction hleft : bytes.length - i using Nat.strongRecOn generalizing i with
  | ind left ih =>
    cases hrest : bytes.drop i with
    | nil =>
      have hend : ¬ i < bytes.length := Nat.not_lt.2 (List.drop_eq_nil_iff.1 hrest)
      exact Checked.loop_of_done (if_neg hend)
    | cons b more =>
      have hlt := lt_length_of_drop hrest
      have hbyte := byteAt_of_drop hrest
      by_cases hslash : b = backslashByte
      · have hround : quoteRound bytes mark i = .ok (.inl (i + 2)) := by
          rw [quoteRound, if_pos hlt, hbyte]
          exact if_pos hslash
        rw [Checked.loop_of_next hround (by omega), ih _ (by omega) _ rfl, hslash,
          bytesBeforeMark?_backslash, ← List.drop_drop, hrest, Option.map_map]
        congr 2
        funext n
        simp only [Function.comp]
        omega
      · rw [bytesBeforeMark?_cons hslash]
        by_cases hmark : b = mark
        · refine Checked.loop_of_done ?_
          rw [quoteRound, if_pos hlt, hbyte, if_pos hmark]
          exact (if_neg hslash).trans (if_pos hmark)
        · have hround : quoteRound bytes mark i = .ok (.inl (i + 1)) := by
            rw [quoteRound, if_pos hlt, hbyte]
            exact (if_neg hslash).trans (if_neg hmark)
          rw [Checked.loop_of_next hround (by omega), ih _ (by omega) _ rfl, if_neg hmark,
            drop_succ_of_drop hrest, Option.map_map]
          congr 2
          funext n
          simp only [Function.comp]
          omega

/-- The end of a quotation is **found without a trap**, wherever the search starts. -/
theorem quoteEnd_eq (text : List Char) (start : Nat) :
    quoteEnd (utf8Bytes text) start = .ok (closingQuote? text start) := by
  rw [quoteEnd, closingQuote?, ← List.head?_drop]
  cases hrest : (utf8Bytes text).drop start with
  | nil => rfl
  | cons mark more =>
    rw [← drop_succ_of_drop hrest]
    exact quoteLoop_eq _ mark (start + 1)

theorem utf8Size_backslash : Char.utf8Size '\\' = 1 := rfl

/-- The search steps over the bytes of a row of high bytes. -/
theorem bytesBeforeMark?_high {mark : Char} (hmark : mark.toNat < 0x80) {highs : List UInt8}
    (hhigh : ∀ b ∈ highs, IsHigh b) (more : List UInt8) :
    bytesBeforeMark? (asciiByte mark) (highs ++ more) =
      (bytesBeforeMark? (asciiByte mark) more).map (· + highs.length) := by
  induction highs with
  | nil => simp
  | cons b others ih =>
    obtain ⟨hb, hothers⟩ := List.forall_mem_cons.1 hhigh
    have hslash : b ≠ backslashByte := asciiByte_ne_of_isHigh (c := '\\') (by decide) hb
    rw [List.cons_append, bytesBeforeMark?_cons hslash, if_neg (asciiByte_ne_of_isHigh hmark hb),
      ih hothers, Option.map_map]
    rfl

theorem bytesBeforeMark?_char {mark c : Char} (hmark : mark.toNat < 0x80) (hc : c ≠ '\\')
    (rest : List Char) : bytesBeforeMark? (asciiByte mark) (utf8Bytes (c :: rest)) =
      if c = mark then some 0
      else (bytesBeforeMark? (asciiByte mark) (utf8Bytes rest)).map (· + c.utf8Size) := by
  obtain ⟨b, more, hbytes, hhigh, hfirst⟩ := exists_firstByte c
  have hslash : b ≠ backslashByte := fun heq => hc ((hfirst '\\' (by decide)).1 heq)
  have hsize : more.length + 1 = c.utf8Size := by
    rw [← String.length_utf8EncodeChar, hbytes, List.length_cons]
  rw [utf8Bytes_cons, hbytes, List.cons_append, bytesBeforeMark?_cons hslash,
    bytesBeforeMark?_high hmark hhigh, Option.map_map, ← hsize]
  simp only [hfirst mark hmark]
  rfl

theorem bytesBeforeMark?_escape {mark : Char} (hmark : mark.toNat < 0x80) (d : Char)
    (rest : List Char) : bytesBeforeMark? (asciiByte mark) (utf8Bytes ('\\' :: d :: rest)) =
      (bytesBeforeMark? (asciiByte mark) (utf8Bytes rest)).map (· + (1 + d.utf8Size)) := by
  obtain ⟨b, more, hbytes, hhigh, -⟩ := exists_firstByte d
  have hsize : d.utf8Size = more.length + 1 := by
    rw [← String.length_utf8EncodeChar, hbytes, List.length_cons]
  have hslash : String.utf8EncodeChar '\\' = [backslashByte] := rfl
  rw [utf8Bytes_cons, utf8Bytes_cons, hslash, hbytes, List.cons_append, List.cons_append,
    List.nil_append, bytesBeforeMark?_backslash, List.drop_one, List.tail_cons,
    bytesBeforeMark?_high hmark hhigh, Option.map_map, hsize]
  congr 1
  funext n
  simp only [Function.comp]
  omega

section Quoted

variable {mark : Char} (hmark : isQuote mark = true)
include hmark

theorem toNat_lt_of_isQuote : mark.toNat < 0x80 := by
  simp only [isQuote, Bool.or_eq_true, decide_eq_true_eq] at hmark
  rcases hmark with rfl | rfl <;> decide

theorem utf8Size_of_isQuote : mark.utf8Size = 1 := by
  simp only [isQuote, Bool.or_eq_true, decide_eq_true_eq] at hmark
  rcases hmark with rfl | rfl <;> rfl

omit hmark in
theorem step_quoted (mark : Char) (group : Option Group) {c : Char} (hc : c ≠ '\\') :
    State.step ⟨group, some mark, false⟩ c =
      ⟨group, if c = mark then none else some mark, false⟩ := by
  simp [State.step, hc]

/-- The bytes before the mark that closes a quotation are those of the characters before it. -/
theorem bytesBeforeMark?_utf8Bytes (rest : List Char) :
    bytesBeforeMark? (asciiByte mark) (utf8Bytes rest) =
      cutAt 0 (splitAtTop ⟨none, some mark, false⟩ rest) := by
  have hascii := toNat_lt_of_isQuote hmark
  induction rest using inductEscapes with
  | nil | backslash => rfl
  | escape d rest ih =>
    rw [bytesBeforeMark?_escape hascii, splitAtTop_escape rfl rfl, ih, map_add_cutAt, cutAt_cons,
      cutAt_cons, Nat.zero_add, Nat.zero_add, utf8Size_backslash]
  | char c rest hc ih =>
    have hstep := step_quoted mark none hc
    rw [bytesBeforeMark?_char hascii hc]
    split
    · next heq =>
      rw [if_pos heq] at hstep
      rw [splitAtTop_cons_top hstep]
      rfl
    · next hne =>
      rw [if_neg hne] at hstep
      rw [splitAtTop_cons hstep rfl, cutAt_cons, ih, map_add_cutAt]

/-- The end of a quotation, by the text behind its mark. -/
theorem quoteEnd_of_tailAt {text rest : List Char} {position : Nat}
    (h : TailAt text position (mark :: rest)) :
    quoteEnd (utf8Bytes text) position =
      .ok (cutAt (position + 1) (splitAtTop ⟨none, some mark, false⟩ rest)) := by
  have hascii := toNat_lt_of_isQuote hmark
  have hbytes : (utf8Bytes text).drop position = asciiByte mark :: utf8Bytes rest := by
    rcases exists_bytes mark with ⟨-, hbytes⟩ | ⟨hhigh, -⟩
    · rw [h.drop_utf8Bytes, utf8Bytes_cons, hbytes]
      rfl
    · omega
  rw [quoteEnd_eq, closingQuote?, hbytes]
  dsimp only
  rw [bytesBeforeMark?_utf8Bytes hmark, map_cutAt_zero]

omit hmark in
/-- Inside a group, a quotation leads back to the group behind its mark. -/
theorem splitAtTop_quoted_group (g : Group) (rest : List Char) :
    splitAtTop ⟨some g, some mark, false⟩ rest =
      (splitAtTop ⟨none, some mark, false⟩ rest).bind fun cut =>
        (splitAtTop ⟨some g, none, false⟩ cut.2).map fun cut' =>
          (cut.1 ++ mark :: cut'.1, cut'.2) := by
  induction rest using inductEscapes with
  | nil | backslash => rfl
  | escape d rest ih =>
    rw [splitAtTop_escape rfl rfl, splitAtTop_escape rfl rfl, ih]
    cases splitAtTop ⟨none, some mark, false⟩ rest with
    | none => rfl
    | some cut => cases h : splitAtTop ⟨some g, none, false⟩ cut.2 <;> simp [h]
  | char c rest hc ih =>
    have hstep := step_quoted mark none hc
    have hstep' := step_quoted mark (some g) hc
    by_cases heq : c = mark
    · rw [if_pos heq] at hstep hstep'
      rw [splitAtTop_cons_top hstep, splitAtTop_cons hstep' rfl, heq]
      rfl
    · rw [if_neg heq] at hstep hstep'
      rw [splitAtTop_cons hstep rfl, splitAtTop_cons hstep' rfl, ih]
      cases splitAtTop ⟨none, some mark, false⟩ rest with
      | none => rfl
      | some cut => cases h : splitAtTop ⟨some g, none, false⟩ cut.2 <;> simp [h]

omit hmark in
/-- A quotation is cut at its mark. -/
theorem eq_append_mark_of_splitAtTop {escaped : Bool} {rest before behind : List Char}
    (h : splitAtTop ⟨none, some mark, escaped⟩ rest = some (before, behind)) :
    rest = before ++ mark :: behind := by
  induction rest generalizing escaped before with
  | nil => cases h
  | cons c rest ih =>
    have hcons : ∀ {escaped'},
        State.step ⟨none, some mark, escaped⟩ c = ⟨none, some mark, escaped'⟩ →
        c :: rest = before ++ mark :: behind := by
      intro escaped' hstep
      rw [splitAtTop_cons hstep rfl] at h
      obtain ⟨cut, hcut, heq⟩ := Option.map_eq_some_iff.1 h
      obtain ⟨rfl, rfl⟩ := Prod.mk.inj heq
      rw [ih hcut, List.cons_append]
    cases escaped with
    | true => exact hcons rfl
    | false =>
      by_cases hslash : c = '\\'
      · exact hcons (by rw [hslash]; rfl)
      · by_cases hmark : c = mark
        · rw [splitAtTop_cons_top (by rw [step_quoted mark none hslash, if_pos hmark]; rfl)] at h
          cases h
          rw [hmark]
          rfl
        · exact hcons (by rw [step_quoted mark none hslash, if_neg hmark])

end Quoted

/-! ### Groups -/

section Groups

variable {text : List Char} {bracket : Bracket} {i i' depth depth' : Nat}

theorem bracketLoop_of_next
    (hround : bracketRound (utf8Bytes text) bracket (i, depth) = .ok (.inl (i', depth')))
    (hlt : i < (utf8Bytes text).length) (hlater : i < i') :
    bracketLoop (utf8Bytes text) bracket depth i = bracketLoop (utf8Bytes text) bracket depth' i' :=
  Checked.loop_of_next hround (Nat.sub_lt_sub_left hlt hlater)

theorem bracketLoop_of_end (h : byteLength text ≤ i) :
    bracketLoop (utf8Bytes text) bracket depth i = .ok none := by
  rw [← Text.length_utf8Bytes] at h
  exact Checked.loop_of_done (if_neg (Nat.not_lt.2 h))

section Round

variable (bracket depth) {b : UInt8} (hlt : i < (utf8Bytes text).length)
  (hbyte : byteAt (utf8Bytes text) i = .ok b)
include hlt hbyte

theorem bracketRound_backslash (hb : b = asciiByte '\\') :
    bracketRound (utf8Bytes text) bracket (i, depth) = .ok (.inl (i + 2, depth)) := by
  rw [bracketRound, if_pos hlt, hbyte]
  exact if_pos hb

theorem bracketRound_unclosed (hslash : b ≠ asciiByte '\\')
    (hb : b = asciiByte '"' ∨ b = asciiByte '\'') (hstop : quoteEnd (utf8Bytes text) i = .ok none) :
    bracketRound (utf8Bytes text) bracket (i, depth) = .ok (.inr none) := by
  rw [bracketRound, if_pos hlt, hbyte]
  simp only [bind, Except.bind]
  rw [if_neg hslash, if_pos hb, hstop]
  rfl

theorem bracketRound_quote (hslash : b ≠ asciiByte '\\')
    (hb : b = asciiByte '"' ∨ b = asciiByte '\'') {stop : Nat}
    (hstop : quoteEnd (utf8Bytes text) i = .ok (some stop)) :
    bracketRound (utf8Bytes text) bracket (i, depth) = .ok (.inl (stop + 1, depth)) := by
  rw [bracketRound, if_pos hlt, hbyte]
  simp only [bind, Except.bind]
  rw [if_neg hslash, if_pos hb, hstop]
  rfl

variable (hslash : b ≠ asciiByte '\\') (hquote : ¬ (b = asciiByte '"' ∨ b = asciiByte '\''))
include hslash hquote

theorem bracketRound_opener (hb : b = asciiByte bracket.opener) :
    bracketRound (utf8Bytes text) bracket (i, depth) = .ok (.inl (i + 1, depth + 1)) := by
  rw [bracketRound, if_pos hlt, hbyte]
  simp only [bind, Except.bind]
  rw [if_neg hslash, if_neg hquote, if_pos hb]
  rfl

variable (hopener : b ≠ asciiByte bracket.opener)
include hopener

/-- At a closing bracket one of the open brackets is closed. There has to be one. -/
theorem bracketRound_closer (hb : b = asciiByte bracket.closer) (inner : Nat) :
    bracketRound (utf8Bytes text) bracket (i, inner + 1) =
      .ok (if inner = 0 then .inr (some i) else .inl (i + 1, inner)) := by
  have hsub : Checked.sub (inner + 1) 1 = .ok inner := Checked.sub_of_le (Nat.le_add_left ..)
  rw [bracketRound, if_pos hlt, hbyte]
  simp only [bind, Except.bind]
  rw [if_neg hslash, if_neg hquote, if_neg hopener, if_pos hb, hsub]
  dsimp only
  split <;> rfl

theorem bracketRound_other (hcloser : b ≠ asciiByte bracket.closer) :
    bracketRound (utf8Bytes text) bracket (i, depth) = .ok (.inl (i + 1, depth)) := by
  rw [bracketRound, if_pos hlt, hbyte]
  simp only [bind, Except.bind]
  rw [if_neg hslash, if_neg hquote, if_neg hopener, if_neg hcloser]
  rfl

end Round

theorem toNat_opener_lt (bracket : Bracket) : bracket.opener.toNat < 0x80 := by
  cases bracket <;> decide

theorem toNat_closer_lt (bracket : Bracket) : bracket.closer.toNat < 0x80 := by
  cases bracket <;> decide

theorem utf8Size_opener (bracket : Bracket) : bracket.opener.utf8Size = 1 := by
  cases bracket <;> rfl

theorem utf8Size_closer (bracket : Bracket) : bracket.closer.utf8Size = 1 := by
  cases bracket <;> rfl

theorem bracketRound_high (bracket : Bracket) (depth : Nat) {i : Nat} {b : UInt8}
    {more : List UInt8} (h : (utf8Bytes text).drop i = b :: more) (hb : IsHigh b) :
    bracketRound (utf8Bytes text) bracket (i, depth) = .ok (.inl (i + 1, depth)) :=
  bracketRound_other bracket depth (lt_length_of_drop h) (byteAt_of_drop h)
    (asciiByte_ne_of_isHigh (by decide) hb)
    (not_or.2 ⟨asciiByte_ne_of_isHigh (by decide) hb, asciiByte_ne_of_isHigh (by decide) hb⟩)
    (asciiByte_ne_of_isHigh (toNat_opener_lt bracket) hb)
    (asciiByte_ne_of_isHigh (toNat_closer_lt bracket) hb)

/-- The search for a bracket steps over high bytes. -/
theorem bracketLoop_skip (depth : Nat) {i : Nat} {b : UInt8} {more : List UInt8}
    (h : (utf8Bytes text).drop i = b :: more) (hb : IsHigh b) :
    bracketLoop (utf8Bytes text) bracket depth i =
      bracketLoop (utf8Bytes text) bracket depth (i + 1) :=
  bracketLoop_of_next (bracketRound_high bracket depth h hb) (lt_length_of_drop h)
    (Nat.lt_succ_self i)

/-- The search **closes** a group, with `inner` more groups inside of it open, from where it stands
in front of `rest`: it ends where the scan on characters cuts the text. -/
def Closes (text : List Char) (bracket : Bracket) (inner position : Nat) (rest : List Char) :
    Prop :=
  bracketLoop (utf8Bytes text) bracket (inner + 1) position =
    .ok (cutAt position (splitAtTop ⟨some ⟨bracket, inner⟩, none, false⟩ rest))

theorem quoteByte_iff {b : UInt8} {c : Char}
    (hfirst : ∀ d : Char, d.toNat < 0x80 → (b = asciiByte d ↔ c = d)) :
    (b = asciiByte '"' ∨ b = asciiByte '\'') ↔ isQuote c = true := by
  rw [hfirst _ (by decide), hfirst _ (by decide)]
  simp [isQuote]

section Closing

variable {rest behind : List Char} {c : Char} {position inner : Nat}

theorem closes_nil (h : TailAt text position []) : Closes text bracket inner position [] :=
  bracketLoop_of_end (Nat.le_of_eq h.add_byteLength.symm)

/-- A backslash hides the character behind it, of which the search steps over the first byte
blindly. -/
theorem closes_backslash (h : TailAt text position ('\\' :: rest))
    (hrest : ∀ {d behind}, rest = d :: behind →
      Closes text bracket inner (position + 1 + d.utf8Size) behind) :
    Closes text bracket inner position ('\\' :: rest) := by
  obtain ⟨b, hbyte, hlt, hfirst⟩ := h.exists_byteAt
  have hround := bracketRound_backslash bracket (inner + 1) hlt hbyte
    ((hfirst _ (by decide)).2 rfl)
  have htail : TailAt text (position + 1) rest := h.rest
  rw [Closes, bracketLoop_of_next hround hlt (by omega)]
  cases rest with
  | nil => exact bracketLoop_of_end (by rw [← htail.add_byteLength]; exact Nat.le_succ _)
  | cons d behind =>
    have hskip := htail.skip (f := bracketLoop (utf8Bytes text) bracket (inner + 1))
      (bracketLoop_skip (inner + 1))
    rw [hskip, splitAtTop_escape rfl rfl, cutAt_cons, cutAt_cons, hrest rfl]
    rfl

/-- A quotation is gone over in one step. -/
theorem closes_quote (h : TailAt text position (c :: rest)) (hquote : isQuote c = true)
    (hrest : ∀ {before behind}, rest = before ++ c :: behind →
      Closes text bracket inner (position + 1 + byteLength before + 1) behind) :
    Closes text bracket inner position (c :: rest) := by
  obtain ⟨b, hbyte, hlt, hfirst⟩ := h.exists_byteAt
  have hslash : c ≠ '\\' := by
    rintro rfl
    cases hquote
  have hslash' : b ≠ asciiByte '\\' := mt (hfirst _ (by decide)).1 hslash
  have hmark := (quoteByte_iff hfirst).2 hquote
  have hstop := quoteEnd_of_tailAt hquote h
  have hstep : State.step ⟨some ⟨bracket, inner⟩, none, false⟩ c =
      ⟨some ⟨bracket, inner⟩, some c, false⟩ := by
    simp [State.step, hslash, hquote]
  have hsize : c.utf8Size = 1 := utf8Size_of_isQuote hquote
  rw [Closes, splitAtTop_cons hstep rfl, cutAt_cons, hsize, splitAtTop_quoted_group]
  cases hcut : splitAtTop ⟨none, some c, false⟩ rest with
  | none =>
    rw [hcut] at hstop
    exact Checked.loop_of_done (bracketRound_unclosed bracket (inner + 1) hlt hbyte hslash' hmark
      hstop)
  | some cut =>
    obtain ⟨before, behind⟩ := cut
    rw [hcut] at hstop
    have hround := bracketRound_quote bracket (inner + 1) hlt hbyte hslash' hmark hstop
    have hlater : position < position + 1 + byteLength before + 1 := by omega
    rw [bracketLoop_of_next hround hlt hlater, hrest (eq_append_mark_of_splitAtTop hcut),
      Option.bind_some]
    cases splitAtTop ⟨some ⟨bracket, inner⟩, none, false⟩ behind with
    | none => rfl
    | some cut =>
      simp only [cutAt, Option.map_some, Text.byteLength_append, Text.byteLength_cons, hsize,
        Except.ok.injEq, Option.some.injEq]
      omega

section Plain

variable (h : TailAt text position (c :: rest)) (hslash : c ≠ '\\') (hquote : ¬ isQuote c = true)
include h hslash hquote

theorem closes_opener (hopen : c = bracket.opener)
    (hrest : Closes text bracket (inner + 1) (position + 1) rest) :
    Closes text bracket inner position (c :: rest) := by
  obtain ⟨b, hbyte, hlt, hfirst⟩ := h.exists_byteAt
  have hround := bracketRound_opener bracket (inner + 1) hlt hbyte
    (mt (hfirst _ (by decide)).1 hslash) (mt (quoteByte_iff hfirst).1 hquote)
    ((hfirst _ (toNat_opener_lt bracket)).2 hopen)
  have hgroup : State.stepGroup c (some ⟨bracket, inner⟩) = some ⟨bracket, inner + 1⟩ :=
    if_pos hopen
  have hstep : State.step ⟨some ⟨bracket, inner⟩, none, false⟩ c =
      ⟨some ⟨bracket, inner + 1⟩, none, false⟩ := by
    simp [State.step, hslash, hquote, hgroup]
  have hsize : c.utf8Size = 1 := hopen ▸ utf8Size_opener bracket
  rw [Closes, bracketLoop_of_next hround hlt (Nat.lt_succ_self _), splitAtTop_cons hstep rfl,
    cutAt_cons, hsize, hrest]

/-- At a closing bracket one of the open brackets is closed, and the search is over at the last. -/
theorem closes_closer (hopen : c ≠ bracket.opener) (hclose : c = bracket.closer)
    (hrest : ∀ {n}, inner = n + 1 → Closes text bracket n (position + 1) rest) :
    Closes text bracket inner position (c :: rest) := by
  obtain ⟨b, hbyte, hlt, hfirst⟩ := h.exists_byteAt
  have hround := bracketRound_closer bracket hlt hbyte (mt (hfirst _ (by decide)).1 hslash)
    (mt (quoteByte_iff hfirst).1 hquote) (mt (hfirst _ (toNat_opener_lt bracket)).1 hopen)
    ((hfirst _ (toNat_closer_lt bracket)).2 hclose) inner
  have hgroup : State.stepGroup c (some ⟨bracket, inner⟩) =
      if inner = 0 then none else some ⟨bracket, inner - 1⟩ :=
    (if_neg hopen).trans (if_pos hclose)
  have hstep : State.step ⟨some ⟨bracket, inner⟩, none, false⟩ c =
      ⟨if inner = 0 then none else some ⟨bracket, inner - 1⟩, none, false⟩ := by
    simp [State.step, hslash, hquote, hgroup]
  rw [Closes]
  cases inner with
  | zero =>
    rw [splitAtTop_cons_top hstep]
    exact Checked.loop_of_done hround
  | succ n =>
    have hsize : c.utf8Size = 1 := hclose ▸ utf8Size_closer bracket
    rw [if_neg (Nat.succ_ne_zero n)] at hround hstep
    rw [bracketLoop_of_next hround hlt (Nat.lt_succ_self _), splitAtTop_cons hstep rfl,
      cutAt_cons, hsize, Nat.add_sub_cancel, hrest rfl]

theorem closes_other (hopen : c ≠ bracket.opener) (hclose : c ≠ bracket.closer)
    (hrest : Closes text bracket inner (position + c.utf8Size) rest) :
    Closes text bracket inner position (c :: rest) := by
  obtain ⟨b, hbyte, hlt, hfirst⟩ := h.exists_byteAt
  have hround := bracketRound_other bracket (inner + 1) hlt hbyte
    (mt (hfirst _ (by decide)).1 hslash) (mt (quoteByte_iff hfirst).1 hquote)
    (mt (hfirst _ (toNat_opener_lt bracket)).1 hopen)
    (mt (hfirst _ (toNat_closer_lt bracket)).1 hclose)
  have hgroup : State.stepGroup c (some ⟨bracket, inner⟩) = some ⟨bracket, inner⟩ :=
    (if_neg hopen).trans (if_neg hclose)
  have hstep : State.step ⟨some ⟨bracket, inner⟩, none, false⟩ c =
      ⟨some ⟨bracket, inner⟩, none, false⟩ := by
    simp [State.step, hslash, hquote, hgroup]
  rw [Closes, bracketLoop_of_next hround hlt (Nat.lt_succ_self _),
    h.skip (bracketLoop_skip (inner + 1)), splitAtTop_cons hstep rfl, cutAt_cons, hrest]

end Plain

/-- The search for the bracket that closes a group **closes** it. The number of open brackets is
never brought below one without the search being over. -/
theorem closes_of_tailAt (h : TailAt text position rest) (inner : Nat) :
    Closes text bracket inner position rest := by
  induction hlength : rest.length using Nat.strongRecOn generalizing rest position inner with
  | ind length ih =>
    cases rest with
    | nil => exact closes_nil h
    | cons c rest =>
      have hshorter : rest.length < length := by simp [← hlength]
      by_cases hslash : c = '\\'
      · subst hslash
        refine closes_backslash h fun {d behind} heq => ?_
        subst heq
        have htail : TailAt text (position + 1) (d :: behind) := h.rest
        exact ih behind.length (Nat.lt_of_succ_lt hshorter) htail.rest inner rfl
      by_cases hquote : isQuote c = true
      · refine closes_quote h hquote fun {before behind} heq => ?_
        subst heq
        have htail := h.rest.append.rest
        rw [utf8Size_of_isQuote hquote] at htail
        simp only [List.length_append, List.length_cons] at hshorter
        exact ih behind.length (by omega) htail inner rfl
      by_cases hopen : c = bracket.opener
      · have htail := h.rest
        rw [hopen, utf8Size_opener] at htail
        exact closes_opener h hslash hquote hopen (ih rest.length hshorter htail (inner + 1) rfl)
      by_cases hclose : c = bracket.closer
      · have htail := h.rest
        rw [hclose, utf8Size_closer] at htail
        exact closes_closer h hslash hquote hopen hclose fun _ =>
          ih rest.length hshorter htail _ rfl
      · exact closes_other h hslash hquote hopen hclose (ih rest.length hshorter h.rest inner rfl)

end Closing

/-- At an opening bracket another bracket is open. -/
theorem bracketRound_of_tailAt {rest : List Char} (h : TailAt text i (bracket.opener :: rest))
    (depth : Nat) :
    bracketRound (utf8Bytes text) bracket (i, depth) = .ok (.inl (i + 1, depth + 1)) := by
  obtain ⟨b, hbyte, hlt, hfirst⟩ := h.exists_byteAt
  have hslash : b ≠ asciiByte '\\' := by
    rw [Ne, hfirst _ (by decide)]
    cases bracket <;> decide
  have hquote : ¬ (b = asciiByte '"' ∨ b = asciiByte '\'') := by
    rw [hfirst _ (by decide), hfirst _ (by decide)]
    cases bracket <;> decide
  exact bracketRound_opener bracket depth hlt hbyte hslash hquote
    ((hfirst _ (toNat_opener_lt bracket)).2 rfl)

/-- The end of a group, by the text behind its bracket. -/
theorem bracketEnd_of_tailAt {rest : List Char} {position : Nat}
    (h : TailAt text position (bracket.opener :: rest)) :
    bracketEnd (utf8Bytes text) bracket position =
      .ok (cutAt (position + 1) (splitAtCloser bracket rest)) := by
  obtain ⟨b, hbyte, hlt, hfirst⟩ := h.exists_byteAt
  have hopener := (hfirst _ (toNat_opener_lt bracket)).2 rfl
  have hrest := h.rest
  rw [utf8Size_opener] at hrest
  rw [bracketEnd, if_pos ((getElem?_eq_some_of_byteAt hbyte).trans (congrArg some hopener)),
    bracketLoop_of_next (bracketRound_of_tailAt h 0) hlt (Nat.lt_succ_self _)]
  exact closes_of_tailAt hrest 0

/-- The end of a group is **found without a trap**, wherever the search starts. -/
theorem bracketEnd_eq (text : List Char) (bracket : Bracket) (start : Nat) :
    bracketEnd (utf8Bytes text) bracket start = .ok (closing? bracket text start) := by
  have hnone (h : (utf8Bytes text)[start]? ≠ some (asciiByte bracket.opener)) :
      bracketEnd (utf8Bytes text) bracket start = .ok none := if_neg h
  rw [closing?]
  cases htail : dropBytes? start text with
  | none => exact hnone fun hbyte =>
      asciiByte_ne_of_isHigh (toNat_opener_lt bracket) (isHigh_of_dropBytes? htail hbyte) rfl
  | some tail =>
    have h := tailAt_of_dropBytes? htail
    cases tail with
    | nil =>
      refine hnone fun hbyte => ?_
      rw [← List.head?_drop, h.drop_utf8Bytes] at hbyte
      cases hbyte
    | cons c rest =>
      dsimp only
      split
      · next heq =>
        subst heq
        rw [bracketEnd_of_tailAt h]
        rfl
      · next hne =>
        obtain ⟨b, hbyte, -, hfirst⟩ := h.exists_byteAt
        refine hnone fun hopener => hne ((hfirst _ (toNat_opener_lt bracket)).1 ?_)
        rw [getElem?_eq_some_of_byteAt hbyte] at hopener
        exact Option.some.inj hopener

end Groups

/-! ### Steps at the top -/

section Steps

variable {text rest : List Char} {c : Char} {position : Nat}

/-- What the scan is inside of, behind a character at the top that is no backslash, ends where the
scan is at the top again. -/
theorem stepAt_eq (h : TailAt text position (c :: rest)) (hslash : c ≠ '\\') :
    stepAt (utf8Bytes text) position = .ok (if State.step .top c = .top then .plain
      else .over (cutAt (position + 1) (splitAtTop (State.step .top c) rest))) := by
  obtain ⟨b, hbyte, -, hfirst⟩ := h.exists_byteAt
  have hslash' : b ≠ asciiByte '\\' := fun heq => hslash ((hfirst _ (by decide)).1 heq)
  have hmark := quoteByte_iff hfirst
  rw [stepAt, hbyte]
  simp only [bind, Except.bind]
  rw [if_neg hslash']
  by_cases hquote : isQuote c = true
  · have hstep : State.step .top c = ⟨none, some c, false⟩ := by
      simp [State.step, State.top, hslash, hquote]
    rw [if_pos (hmark.2 hquote), quoteEnd_of_tailAt hquote h, hstep, if_neg (by simp [State.top])]
    rfl
  have hstep : State.step .top c = ⟨(Bracket.ofOpener? c).map (⟨·, 0⟩), none, false⟩ := by
    simp [State.step, State.top, hslash, hquote, State.stepGroup]
  have hgroup (bracket : Bracket) (hc : c = bracket.opener) :
      State.step .top c = .inside bracket ∧
        bracketEnd (utf8Bytes text) bracket position =
          .ok (cutAt (position + 1) (splitAtTop (State.step .top c) rest)) := by
    subst hc
    have hinside : State.step .top bracket.opener = .inside bracket := by cases bracket <;> rfl
    exact ⟨hinside, hinside ▸ bracketEnd_of_tailAt h⟩
  have hne (bracket : Bracket) : State.inside bracket ≠ .top := by cases bracket <;> decide
  rw [if_neg (mt hmark.1 hquote)]
  by_cases hround : c = '('
  · obtain ⟨hinside, hend⟩ := hgroup .round hround
    rw [if_pos ((hfirst _ (by decide)).2 hround), hend, if_neg (hinside ▸ hne _)]
    rfl
  by_cases hsquare : c = '['
  · obtain ⟨hinside, hend⟩ := hgroup .square hsquare
    rw [if_neg (mt (hfirst _ (by decide)).1 hround), if_pos ((hfirst _ (by decide)).2 hsquare),
      hend, if_neg (hinside ▸ hne _)]
    rfl
  by_cases hcurly : c = '\x7b'
  · obtain ⟨hinside, hend⟩ := hgroup .curly hcurly
    rw [if_neg (mt (hfirst _ (by decide)).1 hround), if_neg (mt (hfirst _ (by decide)).1 hsquare),
      if_pos ((hfirst _ (by decide)).2 hcurly), hend, if_neg (hinside ▸ hne _)]
    rfl
  · have htop : State.step .top c = .top := by
      rw [hstep, Bracket.ofOpener?, if_neg hround, if_neg hsquare, if_neg hcurly]
      rfl
    rw [if_neg (mt (hfirst _ (by decide)).1 hround), if_neg (mt (hfirst _ (by decide)).1 hsquare),
      if_neg (mt (hfirst _ (by decide)).1 hcurly), if_pos htop]
    rfl

end Steps

/-! ### Separators -/

section Separators

variable {text : List Char} {sep : Char}

/-- What is hidden leads to the top without a separator on the way. -/
theorem hidden_of_splitAtTop {s : State} (hs : s.isTop = false) {rest before behind : List Char}
    (h : splitAtTop s rest = some (before, behind)) (sep : Char) :
    ∃ d, rest = before ++ [d] ++ behind ∧ s.run (before ++ [d]) = .top ∧
      hasSeparatorFrom sep s (before ++ [d]) = false := by
  induction rest generalizing s before with
  | nil => cases h
  | cons c rest ih =>
    have hhidden (hrest : List Char) (hnone : hasSeparatorFrom sep (s.step c) hrest = false) :
        hasSeparatorFrom sep s (c :: hrest) = false := by
      rw [hasSeparatorFrom, hs, hnone]
      rfl
    by_cases htop : (s.step c).isTop = true
    · have hstep := (State.isTop_iff _).1 htop
      rw [splitAtTop_cons_top hstep] at h
      cases h
      exact ⟨c, rfl, hstep, hhidden [] rfl⟩
    · rw [Bool.not_eq_true] at htop
      rw [splitAtTop_cons rfl htop] at h
      obtain ⟨⟨before', behind'⟩, hcut, heq⟩ := Option.map_eq_some_iff.1 h
      obtain ⟨rfl, rfl⟩ := Prod.mk.inj heq
      obtain ⟨d, rfl, hrun, hnone⟩ := ih htop hcut
      exact ⟨d, rfl, hrun, hhidden _ hnone⟩

/-- The byte position of the first separator of a text that starts at `position`. -/
def separatorAt (sep : Char) (position : Nat) (s : State) (rest : List Char) : Option Nat :=
  if hasSeparatorFrom sep s rest then some (position + byteLength (piecesFrom sep s rest).1)
  else none

theorem separatorAt_append {s : State} {first : List Char}
    (h : hasSeparatorFrom sep s first = false) (position : Nat) (rest : List Char) :
    separatorAt sep position s (first ++ rest) =
      separatorAt sep (position + byteLength first) (s.run first) rest := by
  rw [separatorAt, separatorAt, hasSeparatorFrom_append, h, Bool.false_or, piecesFrom_append h,
    Text.byteLength_append, Nat.add_assoc]

theorem separatorLoop_of_next {i i' : Nat}
    (hround : separatorRound (utf8Bytes text) sep i = .ok (.inl i'))
    (hlt : i < (utf8Bytes text).length) (hlater : i < i') :
    separatorLoop (utf8Bytes text) sep i = separatorLoop (utf8Bytes text) sep i' :=
  Checked.loop_of_next hround (Nat.sub_lt_sub_left hlt hlater)

theorem separatorLoop_of_end {i : Nat} (h : byteLength text ≤ i) :
    separatorLoop (utf8Bytes text) sep i = .ok none := by
  rw [← Text.length_utf8Bytes] at h
  exact Checked.loop_of_done (if_neg (Nat.not_lt.2 h))

theorem separatorRound_of_step {i : Nat} {b : UInt8} (hlt : i < (utf8Bytes text).length)
    (hbyte : byteAt (utf8Bytes text) i = .ok b) (hsep : b ≠ asciiByte sep) {step : Step}
    (hstep : stepAt (utf8Bytes text) i = .ok step) :
    separatorRound (utf8Bytes text) sep i = .ok (step.next i) := by
  rw [separatorRound, if_pos hlt, hbyte]
  simp only [bind, Except.bind]
  rw [if_neg hsep, hstep]
  rfl

variable (hsep : sep.toNat < 0x80)
include hsep

omit hsep in
theorem utf8Size_of_step_ne_top {c : Char} (h : State.step .top c ≠ .top) : c.utf8Size = 1 := by
  by_cases hslash : c = '\\'
  · rw [hslash]
    rfl
  by_cases hquote : isQuote c = true
  · exact utf8Size_of_isQuote hquote
  · have hgroup : State.stepGroup c none ≠ none := fun hnone =>
      h (by simp [State.step, State.top, hslash, hquote, hnone])
    simp only [State.stepGroup, Bracket.ofOpener?, ne_eq, Option.map_eq_none_iff] at hgroup
    split at hgroup
    · next heq => rw [heq]; rfl
    · split at hgroup
      · next heq => rw [heq]; rfl
      · split at hgroup
        · next heq => rw [heq]; rfl
        · exact absurd rfl hgroup

/-- The search for a separator steps over high bytes. -/
theorem separatorLoop_skip {i : Nat} {b : UInt8} {more : List UInt8}
    (h : (utf8Bytes text).drop i = b :: more) (hb : IsHigh b) :
    separatorLoop (utf8Bytes text) sep i = separatorLoop (utf8Bytes text) sep (i + 1) := by
  have hlt := lt_length_of_drop h
  have hne {c : Char} (hc : c.toNat < 0x80) : b ≠ asciiByte c := asciiByte_ne_of_isHigh hc hb
  have hstep : stepAt (utf8Bytes text) i = .ok .plain := by
    rw [stepAt, byteAt_of_drop h]
    simp only [bind, Except.bind]
    rw [if_neg (hne (by decide)), if_neg (not_or.2 ⟨hne (by decide), hne (by decide)⟩),
      if_neg (hne (by decide)), if_neg (hne (by decide)), if_neg (hne (by decide))]
    rfl
  exact separatorLoop_of_next (separatorRound_of_step hlt (byteAt_of_drop h) (hne hsep) hstep) hlt
    (Nat.lt_succ_self i)

/-- The search **comes to the separator** from where it stands in front of `rest`: it ends where the
scan on characters cuts the text. -/
def Separates (text : List Char) (sep : Char) (position : Nat) (rest : List Char) : Prop :=
  separatorLoop (utf8Bytes text) sep position = .ok (separatorAt sep position .top rest)

section Separating

variable {rest : List Char} {c : Char} {position : Nat}

omit hsep in
theorem separates_nil (h : TailAt text position []) : Separates text sep position [] :=
  separatorLoop_of_end (Nat.le_of_eq h.add_byteLength.symm)

theorem separates_separator (h : TailAt text position (c :: rest)) (heq : c = sep) :
    Separates text sep position (c :: rest) := by
  obtain ⟨b, hbyte, hlt, hfirst⟩ := h.exists_byteAt
  have hround : separatorRound (utf8Bytes text) sep position = .ok (.inr (some position)) := by
    rw [separatorRound, if_pos hlt, hbyte]
    exact if_pos ((hfirst _ hsep).2 heq)
  have hat : separatorAt sep position .top (c :: rest) = some position := by
    simp [separatorAt, hasSeparatorFrom, piecesFrom, heq]
  rw [Separates, hat]
  exact Checked.loop_of_done hround

/-- A backslash hides the character behind it, of which the search steps over the first byte
blindly. -/
theorem separates_backslash (h : TailAt text position ('\\' :: rest)) (hne : '\\' ≠ sep)
    (hrest : ∀ {d behind}, rest = d :: behind →
      Separates text sep (position + 1 + d.utf8Size) behind) :
    Separates text sep position ('\\' :: rest) := by
  obtain ⟨b, hbyte, hlt, hfirst⟩ := h.exists_byteAt
  have hstep : stepAt (utf8Bytes text) position = .ok (.resume (position + 2)) := by
    rw [stepAt, hbyte]
    exact if_pos ((hfirst _ (by decide)).2 rfl)
  have hround := separatorRound_of_step hlt hbyte (mt (hfirst _ hsep).1 hne) hstep
  have htail : TailAt text (position + 1) rest := h.rest
  rw [Separates, separatorLoop_of_next hround hlt (by omega)]
  cases rest with
  | nil =>
    have hnone : hasSeparatorFrom sep .top ['\\'] = false := by simp [hasSeparatorFrom, hne]
    rw [separatorAt, hnone, separatorLoop_of_end]
    · rfl
    · rw [← htail.add_byteLength]
      exact Nat.le_succ _
  | cons d behind =>
    have hhidden : hasSeparatorFrom sep .top ['\\', d] = false := by
      simp [hasSeparatorFrom, State.step, State.top, State.isTop, hne]
    have happend := separatorAt_append hhidden position behind
    have hbytes : byteLength ['\\', d] = 1 + d.utf8Size := rfl
    rw [hbytes, ← Nat.add_assoc] at happend
    rw [htail.skip (separatorLoop_skip hsep), hrest rfl]
    exact congrArg Except.ok happend.symm

section Plain

variable (h : TailAt text position (c :: rest)) (hslash : c ≠ '\\') (hne : c ≠ sep)
include h hslash hne

theorem separates_top (htop : State.step .top c = .top)
    (hrest : Separates text sep (position + c.utf8Size) rest) :
    Separates text sep position (c :: rest) := by
  obtain ⟨b, hbyte, hlt, hfirst⟩ := h.exists_byteAt
  have hstep := stepAt_eq h hslash
  rw [if_pos htop] at hstep
  have hround := separatorRound_of_step hlt hbyte (mt (hfirst _ hsep).1 hne) hstep
  have hnone : hasSeparatorFrom sep .top [c] = false := by simp [hasSeparatorFrom, hne]
  have happend := separatorAt_append hnone position rest
  rw [State.run_cons, State.run_nil, htop] at happend
  rw [Separates, separatorLoop_of_next hround hlt (Nat.lt_succ_self _),
    h.skip (separatorLoop_skip hsep), hrest]
  exact congrArg Except.ok happend.symm

/-- What is hidden is gone over in one step, if it ends. -/
theorem separates_hidden (htop : State.step .top c ≠ .top)
    (hrest : ∀ {before d behind}, rest = before ++ d :: behind →
      Separates text sep (position + 1 + byteLength before + d.utf8Size) behind) :
    Separates text sep position (c :: rest) := by
  obtain ⟨b, hbyte, hlt, hfirst⟩ := h.exists_byteAt
  have hstep := stepAt_eq h hslash
  rw [if_neg htop] at hstep
  have hround := separatorRound_of_step hlt hbyte (mt (hfirst _ hsep).1 hne) hstep
  have hs : (State.step .top c).isTop = false := by
    rw [← Bool.not_eq_true, State.isTop_iff]
    exact htop
  have hsize := utf8Size_of_step_ne_top htop
  have htail := h.rest
  rw [hsize] at htail
  rw [Separates]
  cases hcut : splitAtTop (State.step .top c) rest with
  | none =>
    have habsent : separatorAt sep position .top (c :: rest) = none := by
      rw [separatorAt, hasSeparatorFrom, hasSeparatorFrom_of_splitAtTop hs hcut]
      simp [hne]
    rw [hcut] at hround
    rw [habsent]
    exact Checked.loop_of_done hround
  | some cut =>
    obtain ⟨before, behind⟩ := cut
    rw [hcut] at hround
    obtain ⟨d, rfl, hrun, hhidden⟩ := hidden_of_splitAtTop hs hcut sep
    have hlater : position < position + 1 + byteLength before + 1 := by omega
    have hcons : hasSeparatorFrom sep .top (c :: (before ++ [d])) = false := by
      rw [hasSeparatorFrom, hhidden]
      simp [hne]
    have happend := separatorAt_append hcons position behind
    have hbytes : position + byteLength (c :: (before ++ [d])) =
        position + 1 + byteLength before + d.utf8Size := by
      simp only [Text.byteLength_cons, Text.byteLength_append, Text.byteLength_nil, hsize]
      omega
    rw [State.run_cons, hrun, hbytes] at happend
    rw [List.append_assoc] at htail
    rw [separatorLoop_of_next hround hlt hlater,
      htail.append.skip (separatorLoop_skip hsep), hrest (List.append_assoc ..)]
    exact congrArg Except.ok happend.symm

end Plain

/-- The search for a separator **comes to** the next one. -/
theorem separates_of_tailAt (h : TailAt text position rest) :
    Separates text sep position rest := by
  induction hlength : rest.length using Nat.strongRecOn generalizing rest position with
  | ind length ih =>
    cases rest with
    | nil => exact separates_nil h
    | cons c rest =>
      have hshorter : rest.length < length := by simp [← hlength]
      by_cases heq : c = sep
      · exact separates_separator hsep h heq
      by_cases hslash : c = '\\'
      · subst hslash
        refine separates_backslash hsep h heq fun {d behind} hrest => ?_
        subst hrest
        have htail : TailAt text (position + 1) (d :: behind) := h.rest
        exact ih behind.length (Nat.lt_of_succ_lt hshorter) htail.rest rfl
      by_cases htop : State.step .top c = .top
      · exact separates_top hsep h hslash heq htop (ih rest.length hshorter h.rest rfl)
      · refine separates_hidden hsep h hslash heq htop fun {before d behind} hrest => ?_
        subst hrest
        have htail := h.rest
        rw [utf8Size_of_step_ne_top htop] at htail
        simp only [List.length_append, List.length_cons] at hshorter
        exact ih behind.length (by omega) htail.append.rest rfl

end Separating

/-- The next separator is **found without a trap** where a character begins. -/
theorem separatorFrom_eq {rest : List Char} {position : Nat} (h : TailAt text position rest) :
    separatorFrom (utf8Bytes text) sep position = .ok (separatorAt sep position .top rest) := by
  have hrequire : Checked.require (sep.toNat < 0x80) = .ok () := by
    rw [Checked.require, decide_eq_true hsep]
    rfl
  rw [separatorFrom, hrequire]
  exact separates_of_tailAt hsep h

end Separators

/-! ### Pieces -/

/-- A text with a separator at the top is its first piece, the separator, and the other pieces. -/
theorem exists_of_hasSeparatorFrom {sep : Char} {s : State} {text : List Char}
    (h : hasSeparatorFrom sep s text = true) : ∃ behind,
      text = (piecesFrom sep s text).1 ++ sep :: behind ∧
        (piecesFrom sep s text).2 = pieces sep behind := by
  induction text generalizing s with
  | nil => cases h
  | cons c rest ih =>
    rw [piecesFrom]
    split
    · next hcut =>
      obtain ⟨-, rfl⟩ : s.isTop = true ∧ c = sep := by simpa using hcut
      exact ⟨rest, rfl, rfl⟩
    · next hcut =>
      rw [hasSeparatorFrom, Bool.or_eq_true] at h
      obtain ⟨behind, hrest, hothers⟩ := ih (h.resolve_left hcut)
      exact ⟨behind, congrArg (c :: ·) hrest, hothers⟩

section Cutting

variable {sep : Char} (hsep : sep.toNat < 0x80) {text rest : List Char} {position : Nat}
include hsep

theorem separatorFrom_of_last (h : TailAt text position rest)
    (hlast : hasSeparator sep rest = false) :
    separatorFrom (utf8Bytes text) sep position = .ok none := by
  have hnone : ¬ hasSeparatorFrom sep .top rest = true := by
    rw [← hasSeparator, hlast]
    exact Bool.false_ne_true
  rw [separatorFrom_eq hsep h, separatorAt, if_neg hnone]

/-- Where a separator remains, it is found behind the **next piece**, and the other pieces are those
of the text behind it. -/
theorem exists_cut (h : TailAt text position rest) (hhas : hasSeparator sep rest = true) :
    ∃ first behind, rest = first ++ sep :: behind ∧
      pieces sep rest = first :: pieces sep behind ∧
      separatorFrom (utf8Bytes text) sep position = .ok (some (position + byteLength first)) ∧
      Checked.slice text position (position + byteLength first) = .ok first ∧
      TailAt text (position + byteLength first + 1) behind := by
  have hseparator := separatorFrom_eq hsep h
  obtain ⟨behind, hrest, hothers⟩ := exists_of_hasSeparatorFrom hhas
  have hpieces : pieces sep rest = (piecesFrom sep .top rest).1 :: pieces sep behind := by
    rw [← hothers]
    rfl
  rw [separatorAt, ← hasSeparator, hhas, if_pos rfl] at hseparator
  generalize (piecesFrom sep .top rest).1 = first at hrest hpieces hseparator
  subst hrest
  have hbehind := h.append.rest
  rw [utf8Size_of_lt hsep] at hbehind
  exact ⟨first, behind, rfl, hpieces, hseparator, h.slice, hbehind⟩

end Cutting

/-- Cutting a text up never traps, and its **pieces** are those of the scan on characters. -/
theorem tokens_eq {sep : Char} (hsep : sep.toNat < 0x80) (text : List Char) :
    tokens text sep = .ok (withOffsets 0 (pieces sep text)) := by
  suffices hloop : ∀ {rest start} before, TailAt text start rest →
      loop (byteLength text - ·.1) (tokenRound text sep) (start, before) =
        .ok (before ++ withOffsets start (pieces sep rest)) from hloop [] (TailAt.whole text)
  intro rest start before h
  induction hlength : rest.length using Nat.strongRecOn generalizing rest start before with
  | ind length ih =>
    cases hhas : hasSeparator sep rest with
    | false =>
      have hround :
          tokenRound text sep (start, before) = .ok (.inr (before ++ [(start, rest)])) := by
        rw [tokenRound, separatorFrom_of_last hsep h hhas]
        simp only [bind, Except.bind]
        rw [h.sliceFrom]
        rfl
      rw [pieces_eq_singleton hhas]
      exact Checked.loop_of_done hround
    | true =>
      obtain ⟨first, behind, rfl, hpieces, hseparator, hslice, hbehind⟩ := exists_cut hsep h hhas
      have hround : tokenRound text sep (start, before) =
          .ok (.inl (start + byteLength first + 1, before ++ [(start, first)])) := by
        rw [tokenRound, hseparator]
        simp only [bind, Except.bind]
        rw [hslice]
        rfl
      have hend := hbehind.add_byteLength
      simp only [List.length_append, List.length_cons] at hlength
      rw [Checked.loop_of_next hround (by dsimp only; omega),
        ih behind.length (by omega) _ hbehind rfl, hpieces, withOffsets, List.append_assoc]
      rfl

end GridFormula.Scan
