import GridFormula.Proofs.ByteScan

/-!
# Reading a text piece by piece

The pieces of a text can be asked for one after the other. What answers keeps the position at which
the next piece begins and whether the last one has been given; each call searches for a separator
from that position on and cuts out what stands before it.

The answers are the pieces of the scan, with their byte positions, and nothing from then on. The
invariant between two calls is that the position is one at which a character begins, with the scan
at the top: the piece that has been given ended at a separator. So what remains is split as a text
of its own would be.

## Main definitions

* `Scan.Tokenizer`: what is kept between two calls.
* `Scan.Tokenizer.next`, `Scan.Tokenizer.nth`: one call, and a call after some others.

## Main results

* `Scan.Tokenizer.nth_start`: the answers are the pieces in order.
* `Scan.Tokenizer.exists_tokens`: the pieces make up the text, stand where they are said to stand,
  and have no separators.
-/

namespace GridFormula.Scan

open Text (byteLength utf8Bytes)

/-! ### The program -/

/-- What **gives the pieces** of a text one after the other. -/
structure Tokenizer where
  /-- The text. -/
  text : List Char
  /-- The separator between the pieces. -/
  separator : Char
  /-- The byte position at which the next piece begins. -/
  position : Nat
  /-- Whether the last piece has been given. -/
  done : Bool

namespace Tokenizer

/-- In front of the first piece. -/
def start (text : List Char) (sep : Char) : Tokenizer := ⟨text, sep, 0, false⟩

/-- A **call**: the next piece with its byte position, or nothing, and what is kept for the call
after it. -/
def next (t : Tokenizer) : Checked (Option (Nat × List Char) × Tokenizer) :=
  if t.done then pure (none, t)
  else do
    match ← separatorFrom (utf8Bytes t.text) t.separator t.position with
    | some stop =>
      let piece ← Checked.slice t.text t.position stop
      pure (some (t.position, piece), { t with position := stop + 1 })
    | none =>
      let piece ← Checked.sliceFrom t.text t.position
      pure (some (t.position, piece), { t with done := true })

/-- The answer to a call that comes **after** `n` others. -/
def nth : Nat → Tokenizer → Checked (Option (Nat × List Char))
  | 0, t => do
    let (answer, _) ← t.next
    pure answer
  | n + 1, t => do
    let (_, t) ← t.next
    nth n t

end Tokenizer

/-! ### Pieces and positions -/

section Pieces

variable {sep : Char} {texts : List (List Char)}

theorem map_snd_withOffsets (start : Nat) (texts : List (List Char)) :
    (withOffsets start texts).map Prod.snd = texts := by
  induction texts generalizing start with
  | nil => rfl
  | cons piece others ih => rw [withOffsets, List.map_cons, ih]

/-- A piece with a separator behind it. -/
def terminated (sep : Char) (piece : Nat × List Char) : List Char := piece.2 ++ [sep]

/-- A piece **begins** where the pieces before it and their separators end. -/
theorem offset_of_withOffsets (hsep : sep.utf8Size = 1) {start offset : Nat} {piece : List Char}
    {front back : List (Nat × List Char)}
    (h : withOffsets start texts = front ++ (offset, piece) :: back) :
    offset = start + byteLength (front.flatMap (terminated sep)) ∧
      ∃ behind, [sep].intercalate texts = front.flatMap (terminated sep) ++ piece ++ behind := by
  induction front generalizing start texts with
  | nil =>
    cases texts with
    | nil => cases h
    | cons first others =>
      obtain ⟨heq, -⟩ := List.cons.inj h
      obtain ⟨rfl, rfl⟩ := Prod.mk.inj heq
      refine ⟨rfl, ?_⟩
      cases others with
      | nil => exact ⟨[], by simp [List.intercalate]⟩
      | cons next others => exact ⟨_, intercalate_cons_cons sep first next others⟩
  | cons given front ih =>
    cases texts with
    | nil => cases h
    | cons first others =>
      obtain ⟨rfl, hothers⟩ := List.cons.inj h
      obtain ⟨rfl, behind, hjoin⟩ := ih hothers
      cases others with
      | nil => simp [withOffsets] at hothers
      | cons next others =>
        refine ⟨?_, behind, ?_⟩
        · simp only [List.flatMap_cons, terminated, Text.byteLength_append, Text.byteLength_cons,
            Text.byteLength_nil, hsep]
          omega
        · rw [intercalate_cons_cons, hjoin]
          simp [terminated]

/-- Scanned on its own, a piece has **no separator**. -/
theorem hasSeparator_of_piecesFrom (sep : Char) (s : State) (text : List Char) :
    hasSeparatorFrom sep s (piecesFrom sep s text).1 = false ∧
      ∀ piece ∈ (piecesFrom sep s text).2, hasSeparator sep piece = false := by
  induction text generalizing s with
  | nil => exact ⟨rfl, List.forall_mem_nil _⟩
  | cons c rest ih =>
    rw [piecesFrom]
    split
    · exact ⟨rfl, List.forall_mem_cons.2 (ih .top)⟩
    · next hcut =>
      obtain ⟨hfirst, hothers⟩ := ih (s.step c)
      rw [Bool.not_eq_true] at hcut
      exact ⟨by rw [hasSeparatorFrom, hcut, hfirst]; rfl, hothers⟩

theorem two_le_length_pieces_iff (sep : Char) (text : List Char) :
    2 ≤ (pieces sep text).length ↔ hasSeparator sep text = true := by
  have hnil := piecesFrom_snd_eq_nil_iff sep .top text
  rw [pieces, hasSeparator, List.length_cons, ← Bool.not_eq_false, ← hnil,
    ← List.length_eq_zero_iff]
  omega

end Pieces

/-! ### The calls -/

namespace Tokenizer

variable {text : List Char} {sep : Char}

/-- What is kept between two calls still **has pieces to give**, with their byte positions. -/
inductive Remains (text : List Char) (sep : Char) : Tokenizer → List (Nat × List Char) → Prop where
  /-- After the last one there are none. -/
  | ended {position : Nat} : Remains text sep ⟨text, sep, position, true⟩ []
  /-- Before it they are those of the text from the position on. -/
  | rest {position : Nat} {rest : List Char} : TailAt text position rest →
      Remains text sep ⟨text, sep, position, false⟩ (withOffsets position (pieces sep rest))

/-- A call gives the **first of the remaining pieces** and keeps the others. -/
theorem exists_next (hsep : sep.toNat < 0x80) {t : Tokenizer} {remaining : List (Nat × List Char)}
    (h : Remains text sep t remaining) :
    ∃ t', t.next = .ok (remaining.head?, t') ∧ Remains text sep t' remaining.tail := by
  cases h with
  | ended => exact ⟨_, rfl, .ended⟩
  | @rest position rest htail =>
    cases hhas : hasSeparator sep rest with
    | false =>
      refine ⟨⟨text, sep, position, true⟩, ?_, ?_⟩
      · simp only [next, separatorFrom_of_last hsep htail hhas, Checked.ok_bind, htail.sliceFrom,
          pieces_eq_singleton hhas]
        rfl
      · rw [pieces_eq_singleton hhas]
        exact .ended
    | true =>
      obtain ⟨first, behind, rfl, hpieces, hseparator, hslice, hbehind⟩ :=
        exists_cut hsep htail hhas
      refine ⟨⟨text, sep, position + byteLength first + 1, false⟩, ?_, ?_⟩
      · simp only [next, hseparator, Checked.ok_bind, hslice, hpieces]
        rfl
      · rw [hpieces]
        exact .rest hbehind

/-- The calls give the remaining pieces **in order**, and then nothing for ever. -/
theorem nth_eq (hsep : sep.toNat < 0x80) {t : Tokenizer} {remaining : List (Nat × List Char)}
    (h : Remains text sep t remaining) (n : Nat) : nth n t = .ok remaining[n]? := by
  induction n generalizing t remaining with
  | zero =>
    obtain ⟨t', hnext, -⟩ := exists_next hsep h
    rw [nth, hnext, List.head?_eq_getElem?]
    rfl
  | succ n ih =>
    obtain ⟨t', hnext, hrest⟩ := exists_next hsep h
    rw [nth, hnext, ← List.getElem?_tail]
    exact ih hrest

/-- A text is given **piece by piece**: the pieces, of which there is at least one, make up the text
with the separator between them, each stands at the byte position it is given with, none has a
separator when it is scanned on its own, and there are two or more if and only if the text has one.
Behind the last piece there is nothing, however often it is asked for. -/
theorem exists_tokens (hsep : sep.toNat < 0x80) (text : List Char) :
    ∃ tokens : List (Nat × List Char), tokens ≠ [] ∧
      (∀ n, nth n (start text sep) = .ok tokens[n]?) ∧
      [sep].intercalate (tokens.map Prod.snd) = text ∧
      (∀ front offset token back, tokens = front ++ (offset, token) :: back →
        offset = byteLength (front.flatMap (terminated sep)) ∧
          ∃ behind, text = front.flatMap (terminated sep) ++ token ++ behind) ∧
      (∀ token ∈ tokens, hasSeparator sep token.2 = false) ∧
      (2 ≤ tokens.length ↔ hasSeparator sep text = true) := by
  have hmap := map_snd_withOffsets 0 (pieces sep text)
  refine ⟨withOffsets 0 (pieces sep text), fun hnil => ?_, nth_eq hsep (.rest (.whole text)), ?_,
    fun front offset token back h => ?_, ?_, ?_⟩
  · rw [hnil] at hmap
    cases hmap
  · rw [hmap, intercalate_pieces]
  · have hplace := offset_of_withOffsets (utf8Size_of_lt hsep) h
    rwa [Nat.zero_add, intercalate_pieces] at hplace
  · obtain ⟨hfirst, hothers⟩ := hasSeparator_of_piecesFrom sep .top text
    have hpieces : ∀ piece ∈ pieces sep text, hasSeparator sep piece = false :=
      List.forall_mem_cons.2 ⟨hfirst, hothers⟩
    rw [← hmap] at hpieces
    exact fun token htoken => hpieces _ (List.mem_map_of_mem htoken)
  · rw [← two_le_length_pieces_iff, ← List.length_map Prod.snd, hmap]

/-- A text that is split at its quotation mark: the mark separates before it could begin a
quotation. -/
theorem exists_tokens_quote : '"'.toNat < 0x80 ∧
    ∃ tokens : List (Nat × List Char),
      (∀ n, nth n (start ['a', '"', 'é', '"'] '"') = .ok tokens[n]?) ∧ 2 ≤ tokens.length := by
  obtain ⟨tokens, -, hnth, -, -, -, hlength⟩ :=
    exists_tokens (show '"'.toNat < 0x80 by decide) ['a', '"', 'é', '"']
  exact ⟨by decide, tokens, hnth, hlength.2 (by decide)⟩

end Tokenizer

end GridFormula.Scan
