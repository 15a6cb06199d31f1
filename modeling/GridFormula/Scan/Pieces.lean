import GridFormula.Scan.State
import GridFormula.Text.Utf8

/-!
# Pieces

A separator splits a text where it stands at the top of the scan. The pieces between are kept as
they are, empty ones too. Behind a quotation or a group that is never closed no separator counts,
so the last piece takes the rest of the text.

Whether a character separates is decided before it is given any other meaning: a text can be
split at quotation marks, brackets or backslashes as well.

## Main definitions

* `Scan.hasSeparator`: whether a separator stands at the top.
* `Scan.pieces`: the text between the separators.
* `Scan.withOffsets`: the pieces with their byte positions.

## Main results

* `Scan.intercalate_pieces`: nothing but the separators is lost.
* `Scan.pieces_eq_singleton`: a text without separators at the top is one piece.
* `Scan.mem_withOffsets`: a piece stands in the text at its byte position.
-/

namespace GridFormula.Scan

open Text (byteLength)

/-- Whether `sep` separates, when it is met in state `s`. -/
def hasSeparatorFrom (sep : Char) (s : State) : List Char → Bool
  | [] => false
  | c :: rest => (s.isTop && c = sep) || hasSeparatorFrom sep (s.step c) rest

/-- Whether `sep` occurs in the text at the **top** of the scan. -/
def hasSeparator (sep : Char) (text : List Char) : Bool :=
  hasSeparatorFrom sep .top text

/-- The first piece of a text whose scan begins in state `s`, and the pieces after it. -/
def piecesFrom (sep : Char) (s : State) : List Char → List Char × List (List Char)
  | [] => ([], [])
  | c :: rest =>
    if s.isTop && c = sep then
      let (first, others) := piecesFrom sep .top rest
      ([], first :: others)
    else
      let (first, others) := piecesFrom sep (s.step c) rest
      (c :: first, others)

/-- The **pieces** of a text between the separators. There is always at least one. -/
def pieces (sep : Char) (text : List Char) : List (List Char) :=
  let (first, others) := piecesFrom sep .top text
  first :: others

/-- The pieces with their byte positions, the first of which is `start`. A separator takes one
byte, so it has to be an ASCII character. -/
def withOffsets (start : Nat) : List (List Char) → List (Nat × List Char)
  | [] => []
  | piece :: others => (start, piece) :: withOffsets (start + byteLength piece + 1) others

/-! ### Laws of splitting -/

theorem intercalate_cons_cons (sep : Char) (piece next : List Char) (others : List (List Char)) :
    [sep].intercalate (piece :: next :: others) =
      piece ++ sep :: [sep].intercalate (next :: others) := by
  simp [List.intercalate]

theorem intercalate_piecesFrom (sep : Char) (s : State) (text : List Char) :
    [sep].intercalate ((piecesFrom sep s text).1 :: (piecesFrom sep s text).2) = text := by
  induction text generalizing s with
  | nil => rfl
  | cons c rest ih =>
    rw [piecesFrom]
    split
    · next h =>
      obtain ⟨-, rfl⟩ : s.isTop = true ∧ c = sep := by simpa using h
      rw [intercalate_cons_cons, ih, List.nil_append]
    · have hrest := ih (s.step c)
      cases hothers : (piecesFrom sep (s.step c) rest).2 with
      | nil =>
        rw [hothers] at hrest
        simpa [List.intercalate] using hrest
      | cons next others =>
        rw [hothers, intercalate_cons_cons] at hrest
        rw [intercalate_cons_cons, List.cons_append, hrest]

/-- Nothing but the separators **is lost** when a text is split. -/
theorem intercalate_pieces (sep : Char) (text : List Char) :
    [sep].intercalate (pieces sep text) = text :=
  intercalate_piecesFrom sep .top text

theorem piecesFrom_snd_eq_nil_iff (sep : Char) (s : State) (text : List Char) :
    (piecesFrom sep s text).2 = [] ↔ hasSeparatorFrom sep s text = false := by
  induction text generalizing s with
  | nil => simp [piecesFrom, hasSeparatorFrom]
  | cons c rest ih =>
    rw [piecesFrom, hasSeparatorFrom]
    split
    · next h => simp [h]
    · next h => simp [h, ih]

/-- A text without separators at the top is **one piece**. -/
theorem pieces_eq_singleton {sep : Char} {text : List Char} (h : hasSeparator sep text = false) :
    pieces sep text = [text] := by
  have hothers := (piecesFrom_snd_eq_nil_iff sep .top text).2 h
  have htext := intercalate_piecesFrom sep .top text
  rw [hothers] at htext
  simp only [pieces, hothers]
  simpa [List.intercalate] using htext

/-- A text with a separator at the top is two pieces or more. -/
theorem exists_pieces_eq_cons_cons {sep : Char} {text : List Char}
    (h : hasSeparator sep text = true) :
    ∃ first next others, pieces sep text = first :: next :: others := by
  cases hothers : (piecesFrom sep .top text).2 with
  | nil =>
    have hnone := (piecesFrom_snd_eq_nil_iff sep .top text).1 hothers
    rw [hasSeparator, hnone] at h
    cases h
  | cons next others => exact ⟨_, next, others, congrArg (List.cons _) hothers⟩

/-- A piece **stands in the text** at its byte position. -/
theorem mem_withOffsets {sep : Char} (hsep : sep.utf8Size = 1) {start offset : Nat}
    {texts : List (List Char)} {text : List Char} (h : (offset, text) ∈ withOffsets start texts) :
    ∃ before behind, [sep].intercalate texts = before ++ text ++ behind ∧
      offset = start + byteLength before := by
  induction texts generalizing start with
  | nil => cases h
  | cons piece others ih =>
    rw [withOffsets, List.mem_cons] at h
    rcases h with h | h
    · obtain ⟨rfl, rfl⟩ := Prod.mk.inj h
      cases others with
      | nil => exact ⟨[], [], by simp [List.intercalate], rfl⟩
      | cons next others => exact ⟨[], _, by rw [intercalate_cons_cons]; rfl, rfl⟩
    · obtain ⟨before, behind, htext, rfl⟩ := ih h
      cases others with
      | nil => cases h
      | cons next others =>
        refine ⟨piece ++ sep :: before, behind, ?_, ?_⟩
        · rw [intercalate_cons_cons, htext]
          simp
        · simp only [Text.byteLength_append, Text.byteLength_cons, hsep]
          omega

end GridFormula.Scan
