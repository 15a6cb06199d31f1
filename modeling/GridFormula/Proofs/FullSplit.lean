import GridFormula.Expr.Leaf
import GridFormula.Proofs.Outline
import Mathlib

/-!
# The full split

A tree of argument text can be described without looking for separators first: cut the text at
every `;` at its top, each part at every `,` at its own top and each part of those at every `:`,
and let a part that is alone stand for itself. Building looks for the coarsest separator that
occurs, skips the others and trims before every cut. Both give the same tree.

The two agree because blanks at the ends of a text do not matter to a cut. Outside quotations they
leave the scan where it is, and behind the last separator it does not matter where the scan is, so
the pieces of a trimmed text are those of the text itself up to blanks at their ends (`Padded`).

## Main definitions

* `ArgTree.cut`: a text cut at one separator.
* `ArgTree.fullSplit`: a text cut at all three.

## Main results

* `ArgTree.map_text_outline`: the outline is the full split.
* `ArgTree.parseWith_eq_fullSplit`: reading argument text gives its full split.
-/

namespace GridFormula

open Text (isBlank allBlank)

/-! ### Pieces of a padded text -/

namespace Scan

open Text (Padded)

theorem isPlain_of_isBlank {c : Char} (h : isBlank c = true) : isPlain c = true := by
  have hnot := Text.eq_false_of_isBlank (p := fun c => !isPlain c) (by decide) h
  simpa using hnot

/-- A blank leaves the scan where it is, outside a quotation. -/
theorem step_of_blank {c : Char} (h : isBlank c = true) (group : Option Group) :
    State.step ⟨group, none, false⟩ c = ⟨group, none, false⟩ :=
  State.step_of_isPlain (isPlain_of_isBlank h) group

variable {sep : Char} (hsep : isBlank sep = false)
include hsep

theorem ne_of_isBlank {c : Char} (hc : isBlank c = true) : c ≠ sep := by
  rintro rfl
  rw [hc] at hsep
  cases hsep

/-- No blank separates. -/
theorem hasSeparatorFrom_of_allBlank {blanks : List Char} (h : allBlank blanks = true)
    (s : State) : hasSeparatorFrom sep s blanks = false := by
  induction blanks generalizing s with
  | nil => rfl
  | cons c rest ih =>
    obtain ⟨hc, hrest⟩ : isBlank c = true ∧ allBlank rest = true := by simpa [allBlank] using h
    simp [hasSeparatorFrom, ne_of_isBlank hsep hc, ih hrest]

/-- Blanks in front of a text pad its first piece. -/
theorem piecesFrom_blanks_append {blanks : List Char} (h : allBlank blanks = true)
    (text : List Char) :
    piecesFrom sep .top (blanks ++ text) =
      (blanks ++ (piecesFrom sep .top text).1, (piecesFrom sep .top text).2) := by
  induction blanks with
  | nil => rfl
  | cons c rest ih =>
    obtain ⟨hc, hrest⟩ : isBlank c = true ∧ allBlank rest = true := by simpa [allBlank] using h
    have hne := ne_of_isBlank hsep hc
    have hstep : State.top.step c = .top := step_of_blank hc none
    rw [List.cons_append, piecesFrom, if_neg (by simp [hne]), hstep, ih hrest]
    rfl

/-- Blanks behind a text pad its last piece, wherever the scan is. -/
theorem piecesFrom_append_blanks {blanks : List Char} (h : allBlank blanks = true)
    (s : State) (text : List Char) :
    (∃ behind, allBlank behind = true ∧
      (piecesFrom sep s (text ++ blanks)).1 = (piecesFrom sep s text).1 ++ behind) ∧
    List.Forall₂ Padded (piecesFrom sep s text).2 (piecesFrom sep s (text ++ blanks)).2 := by
  induction text generalizing s with
  | nil =>
    have hothers := (piecesFrom_snd_eq_nil_iff sep s blanks).2
      (hasSeparatorFrom_of_allBlank hsep h s)
    have hfirst := intercalate_piecesFrom sep s blanks
    rw [hothers] at hfirst
    simp only [List.nil_append, piecesFrom, hothers]
    exact ⟨⟨_, h, by simpa [List.intercalate] using hfirst⟩, .nil⟩
  | cons c rest ih =>
    rw [List.cons_append, piecesFrom, piecesFrom]
    split
    · obtain ⟨⟨behind, hbehind, hfirst⟩, hothers⟩ := ih .top
      exact ⟨⟨[], rfl, rfl⟩, .cons ⟨[], behind, rfl, hbehind, hfirst⟩ hothers⟩
    · obtain ⟨⟨behind, hbehind, hfirst⟩, hothers⟩ := ih (s.step c)
      exact ⟨⟨behind, hbehind, congrArg (List.cons c) hfirst⟩, hothers⟩

/-- The pieces of a padded text are the **padded pieces** of the text. -/
theorem pieces_padded {text padded : List Char} (h : Padded text padded) :
    List.Forall₂ Padded (pieces sep text) (pieces sep padded) := by
  obtain ⟨before, behind, hbefore, hbehind, rfl⟩ := h
  obtain ⟨⟨last, hlast, hfirst⟩, hothers⟩ := piecesFrom_append_blanks hsep hbehind .top text
  simp only [pieces, List.append_assoc, piecesFrom_blanks_append hsep hbefore, hfirst]
  exact .cons ⟨before, last, hbefore, hlast, by simp⟩ hothers

end Scan

namespace ArgTree

open Text (Padded)

/-! ### Cutting -/

/-- A part that is alone stands for itself; two or more make a group. -/
def collapse {ε : Type} (level : Level) : List (ArgTree ε) → ArgTree ε
  | [part] => part
  | parts => .group level parts

/-- An innermost part: its trimmed text, or nothing when it is blank. -/
def innermost (text : List Char) : ArgTree (List Char) :=
  if allBlank text then .omitted else .leaf (Text.trim text)

/-- A text **cut** at every separator of one level at its top. -/
def cut (level : Level) (sep : Char) (inner : List Char → ArgTree (List Char))
    (text : List Char) : ArgTree (List Char) :=
  collapse level ((Scan.pieces sep text).map inner)

/-- The **full split** of a text: cut at every `;`, each part at every `,`, and each part of those
at every `:`. -/
def fullSplit (text : List Char) : ArgTree (List Char) :=
  cut .semicolon ';' (cut .comma ',' (cut .colon ':' innermost)) text

/-! ### Agreement with the outline -/

/-- A way to split texts **fits** some levels: blanks at the ends do not matter to it, and it gives
what the outline by those levels gives. -/
structure Fits (levels : List Level) (split : List Char → ArgTree (List Char)) : Prop where
  /-- Padding a text does not change its split. -/
  padded : ∀ {text padded}, Padded text padded → split padded = split text
  /-- The split is the outline without byte positions. -/
  outline : ∀ slot : LeafText,
    (outlineSlot (outlineBy levels) slot).map LeafText.text = split slot.text

theorem fits_innermost : Fits [] innermost where
  padded h := by rw [innermost, innermost, h.allBlank_eq, h.trim_eq]
  outline slot := by
    unfold outlineSlot innermost
    split <;> rfl

theorem map_text_split (sep : Char) (piece : LeafText) :
    (piece.split sep).map LeafText.text = Scan.pieces sep piece.text := by
  have hoffsets : ∀ (texts : List (List Char)) (start : Nat),
      (Scan.withOffsets start texts).map Prod.snd = texts := by
    intro texts
    induction texts with
    | nil => exact fun _ => rfl
    | cons text others ih => exact fun start => congrArg (List.cons text) (ih _)
  rw [LeafText.split, List.map_map]
  exact hoffsets _ _

theorem cut_padded {inner : List Char → ArgTree (List Char)} (level : Level) {sep : Char}
    (hsep : isBlank sep = false)
    (hinner : ∀ {text padded}, Padded text padded → inner padded = inner text)
    {text padded : List Char} (h : Padded text padded) :
    cut level sep inner padded = cut level sep inner text := by
  have hparts : ∀ {texts paddeds}, List.Forall₂ Padded texts paddeds →
      paddeds.map inner = texts.map inner := by
    intro texts paddeds hpieces
    induction hpieces with
    | nil => rfl
    | cons hpiece _ ih => rw [List.map_cons, List.map_cons, hinner hpiece, ih]
  rw [cut, cut, hparts (Scan.pieces_padded hsep h)]

theorem cut_of_no_separator {inner : List Char → ArgTree (List Char)} (level : Level) {sep : Char}
    {text : List Char} (h : Scan.hasSeparator sep text = false) :
    cut level sep inner text = inner text := by
  rw [cut, Scan.pieces_eq_singleton h]
  rfl

theorem cut_of_separator {inner : List Char → ArgTree (List Char)} (level : Level) {sep : Char}
    {text : List Char} (h : Scan.hasSeparator sep text = true) :
    cut level sep inner text = .group level ((Scan.pieces sep text).map inner) := by
  obtain ⟨first, next, others, hpieces⟩ := Scan.exists_pieces_eq_cons_cons h
  rw [cut, hpieces]
  rfl

/-- Cutting at one more separator **fits** one more level. -/
theorem Fits.cut {levels : List Level} {inner : List Char → ArgTree (List Char)}
    (hinner : Fits levels inner) (level : Level) {sep : Char}
    (hlevel : level.separator? = some sep) (hsep : isBlank sep = false) :
    Fits (level :: levels) (cut level sep inner) where
  padded h := cut_padded level hsep hinner.padded h
  outline slot := by
    have hslot := hinner.outline slot
    have htrim := Text.padded_trim slot.text
    unfold outlineSlot at hslot ⊢
    split
    · next hblank =>
      -- a blank slot is one piece, which the finer levels leave out
      rw [if_pos hblank] at hslot
      have hnone := Scan.hasSeparatorFrom_of_allBlank hsep hblank .top
      exact hslot.trans (cut_of_no_separator level hnone).symm
    · next hblank =>
      rw [if_neg hblank] at hslot
      rw [cut_padded level hsep hinner.padded htrim, outlineBy, hlevel]
      dsimp only
      split
      · next hhas =>
        have hparts : ∀ pieces : List LeafText,
            (pieces.map (outlineSlot (outlineBy levels))).map (map LeafText.text) =
              (pieces.map LeafText.text).map inner := by
          intro pieces
          rw [List.map_map, List.map_map]
          exact List.map_congr_left fun piece _ => hinner.outline piece
        rw [map, mapSlots_eq_map, hparts, map_text_split]
        exact (cut_of_separator level hhas).symm
      · next hhas =>
        rw [hslot, cut_of_no_separator level (Bool.not_eq_true _ ▸ hhas)]
        exact hinner.padded htrim

/-- The **outline is the full split** of the text, with byte positions added. -/
theorem map_text_outline (text : List Char) : (outline text).map LeafText.text = fullSplit text :=
  (((fits_innermost.cut .colon rfl rfl).cut .comma rfl rfl).cut .semicolon rfl rfl).outline
    ⟨0, text⟩

theorem innermost_of_not_blank {text : List Char} (h : allBlank text = false) :
    innermost text = .leaf (Text.trim text) := by
  rw [innermost, if_neg (by simp [h])]

/-- A cut that gives no group **cuts nothing**. -/
theorem eq_of_cut {level : Level} {sep : Char} {inner : List Char → ArgTree (List Char)}
    {text : List Char} {tree : ArgTree (List Char)} (htree : tree.level? = none)
    (h : cut level sep inner text = tree) : inner text = tree := by
  cases hhas : Scan.hasSeparator sep text with
  | false => rwa [cut_of_no_separator level hhas] at h
  | true =>
    rw [cut_of_separator level hhas] at h
    subst h
    cases htree

/-- A full split that is no group is one piece, or nothing. -/
theorem innermost_eq_of_fullSplit {text : List Char} {tree : ArgTree (List Char)}
    (htree : tree.level? = none) (h : fullSplit text = tree) : innermost text = tree :=
  eq_of_cut htree (eq_of_cut htree (eq_of_cut htree h))

/-- A full split of one piece is that of the trimmed text. -/
theorem eq_trim_of_fullSplit {text piece : List Char} (h : fullSplit text = .leaf piece) :
    piece = Text.trim text := by
  have hinnermost := innermost_eq_of_fullSplit rfl h
  unfold innermost at hinnermost
  split at hinnermost
  · cases hinnermost
  · cases hinnermost
    rfl

/-! ### Reading -/

/-- Building succeeds exactly when the full split is **traversed**, and gives the same tree. -/
theorem ofText_eq_ok_iff {ε : Type} {compile : List Char → Except Error ε} {text : List Char}
    {tree : ArgTree ε} :
    ofText compile text = .ok tree ↔ (fullSplit text).traverse compile = .ok tree := by
  have hpiece : ∀ piece e, compilePiece compile piece = .ok e ↔
      ∃ v, compile piece.text = .ok v ∧ e = v := by
    intro piece e
    simp [compilePiece_eq_ok_iff]
  rw [ofText_eq_traverse, ← map_text_outline, traverse_map, traverse_eq_ok_iff hpiece]
  simp [map_id']

theorem parseWith_eq_ok_iff {ε κ : Type} [Leaf ε κ] {env : Env} {options : Options}
    {text : List Char} {tree : ArgTree ε} :
    parseWith env options text = .ok tree ↔
      (fullSplit text).traverse (Leaf.compile env options 0) = .ok tree :=
  ofText_eq_ok_iff

/-- **Reading argument text gives its full split**, with each leaf text compiled, for any leaves
that compile on all of them. -/
theorem parseWith_eq_fullSplit {ε κ : Type} [Leaf ε κ] (env : Env) (options : Options)
    (text : List Char) (value : List Char → ε)
    (h : ∀ piece ∈ (fullSplit text).expressions,
      Leaf.compile env options 0 piece = .ok (value piece)) :
    parseWith env options text = .ok ((fullSplit text).map value) := by
  rw [← map_text_outline] at h ⊢
  rw [expressions_map] at h
  rw [map_map]
  refine (alongOutline_ofText _ text).tree _ fun piece hpiece => ?_
  exact h piece.text (List.mem_map_of_mem hpiece)

/-- In `x,;'u,'` the comma between the apostrophes cuts nothing, and the blank slots are kept. -/
theorem parseWith_group_of_groups :
    parseWith ⟨⟨9, 9⟩, .empty⟩ {} ['x', ',', ';', '\'', 'u', ',', '\''] =
      (.ok (.group .semicolon [.group .comma [.leaf (.name "x"), .omitted], .leaf (.field "u,")]) :
        Except Error (ArgTree Expr)) :=
  parseWith_eq_fullSplit (ε := Expr) ⟨⟨9, 9⟩, .empty⟩ {} ['x', ',', ';', '\'', 'u', ',', '\'']
    (fun piece => if piece = ['x'] then .name "x" else .field "u,") (by
      have hpieces : (fullSplit ['x', ',', ';', '\'', 'u', ',', '\'']).expressions =
          [['x'], ['\'', 'u', ',', '\'']] := by decide
      have hfirst : Expr.compile ⟨⟨9, 9⟩, .empty⟩ {} ['x'] = .ok (.name "x") := by cbv
      have hsecond : Expr.compile ⟨⟨9, 9⟩, .empty⟩ {} ['\'', 'u', ',', '\''] =
          .ok (.field "u,") := by cbv
      rw [hpieces]
      simp only [List.mem_cons, List.not_mem_nil, or_false, forall_eq_or_imp, forall_eq]
      exact ⟨hfirst, hsecond⟩)

end ArgTree

end GridFormula
