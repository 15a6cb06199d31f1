import GridFormula.Scan.State
import GridFormula.Text.Utf8

/-!
# Matching marks

Where a bracket or a quotation that begins at some byte of a text ends.

A bracket is matched on characters by running the scan until it is at the top again. A quotation
is matched on bytes: its mark is the byte at the start, whatever it is, and a backslash hides the
next byte. For the quotation marks themselves the two views agree, because no byte of a longer
character is an ASCII character.

## Main definitions

* `Scan.splitAtTop`: the text up to where the scan reaches the top, and the text behind.
* `Scan.closing?`: the byte of the bracket that closes the one at a position.
* `Scan.closingQuote?`: the byte that closes the quotation at a position.
-/

namespace GridFormula.Scan

open Text (byteLength dropBytes? utf8Bytes)

/-! ### Brackets -/

/-- Splits a text at the first character behind which the scan is at the top: the text before
that character and the text behind it. Without such a character there is no answer. -/
def splitAtTop (s : State) : List Char → Option (List Char × List Char)
  | [] => none
  | c :: rest =>
    if (s.step c).isTop then some ([], rest)
    else (splitAtTop (s.step c) rest).map fun (before, behind) => (c :: before, behind)

/-- The text between a bracket that has just been opened and the one that closes it, and the text
behind that. -/
def splitAtCloser (bracket : Bracket) (text : List Char) : Option (List Char × List Char) :=
  splitAtTop (.inside bracket) text

/-- The byte position of the bracket that closes the one at byte `start`. There is none when no
opening bracket of that kind stands there, or when it is never closed. -/
def closing? (bracket : Bracket) (text : List Char) (start : Nat) : Option Nat :=
  match dropBytes? start text with
  | some (c :: rest) =>
    if c = bracket.opener then
      (splitAtCloser bracket rest).map fun (before, _) => start + 1 + byteLength before
    else none
  | _ => none

section Cuts

variable {s s' : State} {c : Char} {rest before behind : List Char}

theorem splitAtTop_cons (hstep : s.step c = s') (htop : s'.isTop = false) :
    splitAtTop s (c :: rest) = (splitAtTop s' rest).map fun cut => (c :: cut.1, cut.2) := by
  rw [splitAtTop, hstep, htop]
  rfl

theorem splitAtTop_cons_top (hstep : s.step c = .top) :
    splitAtTop s (c :: rest) = some ([], rest) := by
  rw [splitAtTop, hstep]
  rfl

theorem splitAtTop_cons_eq_none_iff : splitAtTop s (c :: rest) = none ↔
    (s.step c).isTop = false ∧ splitAtTop (s.step c) rest = none := by
  rw [splitAtTop]
  cases (s.step c).isTop <;> simp

/-- The first character of a text is the one that it is split at, or is left of it. -/
theorem splitAtTop_cons_eq_some_iff : splitAtTop s (c :: rest) = some (before, behind) ↔
    (s.step c).isTop = true ∧ before = [] ∧ behind = rest ∨
      (s.step c).isTop = false ∧ ∃ before', before = c :: before' ∧
        splitAtTop (s.step c) rest = some (before', behind) := by
  rw [splitAtTop]
  cases (s.step c).isTop with
  | true => simp [eq_comm]
  | false =>
    constructor
    · intro h
      obtain ⟨⟨before', behind'⟩, hrest, heq⟩ := Option.map_eq_some_iff.1 h
      cases heq
      exact .inr ⟨rfl, before', rfl, hrest⟩
    · rintro (⟨htop, -⟩ | ⟨-, before', rfl, hrest⟩)
      · cases htop
      · exact congrArg (Option.map fun cut => (c :: cut.1, cut.2)) hrest

end Cuts

/-- A text that is split at the top loses the one character between its parts. -/
theorem eq_of_splitAtTop {s : State} {text before behind : List Char}
    (h : splitAtTop s text = some (before, behind)) : ∃ c, text = before ++ c :: behind := by
  induction text generalizing s before with
  | nil => cases h
  | cons c rest ih =>
    rcases splitAtTop_cons_eq_some_iff.1 h with ⟨-, rfl, rfl⟩ | ⟨-, before', rfl, hrest⟩
    · exact ⟨c, rfl⟩
    · obtain ⟨d, rfl⟩ := ih hrest
      exact ⟨d, rfl⟩

/-- Inside a group the scan reaches the top behind the bracket that closes the group. -/
theorem eq_append_closer_of_splitAtTop {s : State} {g : Group} (hs : s.group = some g)
    {text before behind : List Char} (h : splitAtTop s text = some (before, behind)) :
    text = before ++ g.bracket.closer :: behind := by
  induction text generalizing s g before with
  | nil => cases h
  | cons c rest ih =>
    rcases State.step_of_group hs c with ⟨g', hg', hbracket⟩ | ⟨htop, rfl⟩
    · have hne : (s.step c).isTop = false := by simp [State.isTop, hg']
      rcases splitAtTop_cons_eq_some_iff.1 h with ⟨htop, -⟩ | ⟨-, before', rfl, hrest⟩
      · rw [hne] at htop
        cases htop
      · rw [List.cons_append, ih hg' hrest, hbracket]
    · rw [splitAtTop_cons_top htop] at h
      cases h
      rfl

/-- Where the scan reaches the top does not depend on what stands behind. -/
theorem splitAtTop_append {s : State} {before behind : List Char} {c : Char}
    (h : splitAtTop s (before ++ c :: behind) = some (before, behind)) (behind' : List Char) :
    splitAtTop s (before ++ c :: behind') = some (before, behind') := by
  induction before generalizing s with
  | nil =>
    rcases splitAtTop_cons_eq_some_iff.1 h with ⟨htop, -⟩ | ⟨-, before', heq, -⟩
    · exact splitAtTop_cons_eq_some_iff.2 (.inl ⟨htop, rfl, rfl⟩)
    · cases heq
  | cons d rest ih =>
    rcases splitAtTop_cons_eq_some_iff.1 h with ⟨-, heq, -⟩ | ⟨hopen, before', heq, hrest⟩
    · cases heq
    · cases heq
      exact splitAtTop_cons_eq_some_iff.2 (.inr ⟨hopen, rest, rfl, ih hrest⟩)

/-! ### Quotations -/

/-- The byte of a backslash. -/
def backslashByte : UInt8 := 0x5c

/-- The number of bytes before the first `mark` that no backslash hides. -/
def bytesBeforeMark? (mark : UInt8) : List UInt8 → Option Nat
  | [] => none
  | [b] => if b = backslashByte then none else if b = mark then some 0 else none
  | b :: hidden :: rest =>
    if b = backslashByte then (bytesBeforeMark? mark rest).map (· + 2)
    else if b = mark then some 0
    else (bytesBeforeMark? mark (hidden :: rest)).map (· + 1)

/-- The byte position at which the quotation that begins at byte `start` ends. Its mark is the
byte at that position. -/
def closingQuote? (text : List Char) (start : Nat) : Option Nat :=
  match (utf8Bytes text).drop start with
  | [] => none
  | mark :: rest => (bytesBeforeMark? mark rest).map (start + 1 + ·)

end GridFormula.Scan
