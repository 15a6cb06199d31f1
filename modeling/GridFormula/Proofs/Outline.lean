import GridFormula.ArgTree.Parse

/-!
# Trees along outlines

Building a tree goes through the text once, from left to right, and its course is fixed by the
text: the tree is the outline with each piece made an expression. Which pieces there are, and
where, does not depend on what is made of them.

A piece carries its byte position through every trimming and every split. The invariant behind it
is `LeafText.In`: the piece stands in the whole text at that position.

## Main results

* `ArgTree.ofText_eq_traverse`: building is a traversal of the outline.
* `ArgTree.in_of_mem_outline`: the pieces of an outline stand in the text at their positions.
* `ArgTree.parseAt_along_outline`: what reading argument text answers, for any leaves.
-/

namespace GridFormula

open Text (byteLength dropBytes? isBlank allBlank)

/-! ### Pieces in their text -/

namespace LeafText

/-- A piece stands **in** a text: its characters are found there at its byte position. -/
def In (piece : LeafText) (text : List Char) : Prop :=
  ∃ before behind, text = before ++ piece.text ++ behind ∧ byteLength before = piece.offset

namespace In

variable {piece : LeafText} {text : List Char}

/-- The text at the byte position of a piece begins with the piece. -/
theorem dropBytes? (h : piece.In text) :
    ∃ behind, dropBytes? piece.offset text = some (piece.text ++ behind) := by
  obtain ⟨before, behind, rfl, hoffset⟩ := h
  refine ⟨behind, ?_⟩
  rw [← hoffset, List.append_assoc, Text.dropBytes?_append]

/-- A part of a piece stands in the text where the piece has it. -/
theorem trans {part : LeafText} (h : piece.In text) {before behind : List Char}
    (htext : piece.text = before ++ part.text ++ behind)
    (hoffset : part.offset = piece.offset + byteLength before) : part.In text := by
  obtain ⟨first, last, rfl, hfirst⟩ := h
  refine ⟨first ++ before, behind ++ last, ?_, ?_⟩
  · rw [htext]
    simp
  · rw [hoffset, ← hfirst, Text.byteLength_append]

theorem trim (h : piece.In text) : piece.trim.In text := by
  obtain ⟨blanks, -, htext⟩ := Text.exists_trim_append piece.text
  exact h.trans (htext : piece.text = _ ++ piece.trim.text ++ _) rfl

theorem of_mem_split {level : Level} {sep : Char} (hsep : level.separator? = some sep)
    (h : piece.In text) {part : LeafText} (hpart : part ∈ piece.split sep) : part.In text := by
  obtain ⟨⟨offset, inner⟩, hmem, rfl⟩ := List.mem_map.1 hpart
  obtain ⟨before, behind, htext, hoffset⟩ :=
    Scan.mem_withOffsets (Level.utf8Size_of_separator? hsep) hmem
  rw [Scan.intercalate_pieces] at htext
  exact h.trans htext hoffset

end In

end LeafText

namespace ArgTree

/-! ### The pieces of an outline -/

/-- Where `outline` keeps pieces in their text, a slot does. -/
theorem in_of_mem_outlineSlot {outline : LeafText → ArgTree LeafText} {text : List Char}
    (houtline : ∀ piece : LeafText, piece.In text →
      ∀ part ∈ (outline piece).expressions, part.In text)
    {slot : LeafText} (hslot : slot.In text) :
    ∀ part ∈ (outlineSlot outline slot).expressions, part.In text := by
  intro part hpart
  unfold outlineSlot at hpart
  split at hpart
  · cases hpart
  · exact houtline _ hslot.trim part hpart

theorem in_of_mem_outlineBy {text : List Char} (levels : List Level) :
    ∀ piece : LeafText, piece.In text →
      ∀ part ∈ (outlineBy levels piece).expressions, part.In text := by
  induction levels with
  | nil =>
    intro piece hpiece part hpart
    obtain rfl : part = piece := by simpa [outlineBy] using hpart
    exact hpiece
  | cons level finer ih =>
    intro piece hpiece part hpart
    unfold outlineBy at hpart
    split at hpart
    · exact ih piece hpiece part hpart
    · next sep hsep =>
      split at hpart
      · rw [expressions_group, List.mem_flatMap] at hpart
        obtain ⟨tree, htree, hpart⟩ := hpart
        obtain ⟨slot, hslot, rfl⟩ := List.mem_map.1 htree
        exact in_of_mem_outlineSlot ih (hpiece.of_mem_split hsep hslot) part hpart
      · exact ih piece hpiece part hpart

/-- The pieces of an outline stand **in the text** at their byte positions. -/
theorem in_of_mem_outline (text : List Char) :
    ∀ piece ∈ (outline text).expressions, piece.In text :=
  in_of_mem_outlineSlot (in_of_mem_outlineBy _) ⟨[], [], by simp, rfl⟩

/-! ### Building along the outline -/

section Building

variable {ε : Type} (compile : List Char → Except Error ε)

theorem buildSlot_eq_traverse {outline : LeafText → ArgTree LeafText}
    {build : LeafText → Except Error (ArgTree ε)}
    (h : ∀ piece, build piece = (outline piece).traverse (compilePiece compile))
    (slot : LeafText) :
    buildSlot build slot = (outlineSlot outline slot).traverse (compilePiece compile) := by
  unfold buildSlot outlineSlot
  split
  · rfl
  · exact h slot.trim

theorem buildBy_eq_traverse (levels : List Level) :
    ∀ piece, buildBy compile levels piece =
      (outlineBy levels piece).traverse (compilePiece compile) := by
  induction levels with
  | nil => exact fun _ => rfl
  | cons level finer ih =>
    intro piece
    unfold buildBy outlineBy
    split
    · exact ih piece
    · next sep _ =>
      split
      · -- every slot is built along its own outline, by induction on the finer levels
        have hslots : buildSlot (buildBy compile finer) =
            fun slot => (outlineSlot (outlineBy finer) slot).traverse (compilePiece compile) :=
          funext (buildSlot_eq_traverse compile ih)
        rw [traverse, traverseSlots_eq_mapM, List.mapM_map, hslots]
        rfl
      · exact ih piece

/-- **Building is a traversal of the outline.** -/
theorem ofText_eq_traverse (text : List Char) :
    ofText compile text = (outline text).traverse (compilePiece compile) :=
  buildSlot_eq_traverse compile (buildBy_eq_traverse compile _) _

theorem compilePiece_eq_ok_iff {piece : LeafText} {e : ε} :
    compilePiece compile piece = .ok e ↔ compile piece.text = .ok e := by
  rw [compilePiece]
  cases compile piece.text with
  | error => exact iff_of_false nofun nofun
  | ok v => exact Iff.rfl

end Building

/-! ### What building answers -/

/-- An outcome of building a text goes **along its outline**: the tree is the outline with its
pieces made expressions, and an error is that of the first piece that is none. -/
structure AlongOutline {ε : Type} (compile : List Char → Except Error ε) (text : List Char)
    (outcome : Except Error (ArgTree ε)) : Prop where
  /-- When every piece is an expression, each takes the place of its piece. -/
  tree : ∀ value : LeafText → ε,
    (∀ piece ∈ (outline text).expressions, compile piece.text = .ok (value piece)) →
    outcome = .ok ((outline text).map value)
  /-- The syntax error of the first piece that fails, moved to where the piece stands. -/
  syntaxError : ∀ before piece behind error,
    (outline text).expressions = before ++ piece :: behind →
    (∀ earlier ∈ before, ∃ e, compile earlier.text = .ok e) →
    compile piece.text = .error (.badSyntax error) →
    outcome = .error (.badSyntax (error.shift piece.offset))
  /-- Any other error of the first piece that fails, as it is. -/
  otherError : ∀ before piece behind error,
    (outline text).expressions = before ++ piece :: behind →
    (∀ earlier ∈ before, ∃ e, compile earlier.text = .ok e) →
    compile piece.text = .error error → (∀ syntaxError, error ≠ .badSyntax syntaxError) →
    outcome = .error error
  /-- The levels and slots of a tree are those of the outline. -/
  shape : ∀ tree, outcome = .ok tree → tree.shape = (outline text).shape

/-- The first piece that fails decides the error of building. -/
theorem ofText_eq_error {ε : Type} {compile : List Char → Except Error ε} {text : List Char}
    {before behind : List LeafText} {piece : LeafText} {error : Error}
    (hpieces : (outline text).expressions = before ++ piece :: behind)
    (hbefore : ∀ earlier ∈ before, ∃ e, compile earlier.text = .ok e)
    (hpiece : compile piece.text = .error error) :
    ofText compile text = .error (error.shift piece.offset) := by
  rw [ofText_eq_traverse, traverse_eq_error_iff, hpieces, List.findSome?_append]
  have hnone : before.findSome? (failure? (compilePiece compile)) = none := by
    rw [List.findSome?_eq_none_iff]
    intro earlier hearlier
    obtain ⟨e, he⟩ := hbefore earlier hearlier
    exact failure?_eq_none_iff.2 ⟨e, by rw [compilePiece, he]; rfl⟩
  have hfails : failure? (compilePiece compile) piece = some (error.shift piece.offset) := by
    rw [failure?_eq_some_iff, compilePiece, hpiece]
    rfl
  rw [hnone, Option.none_or, List.findSome?_cons, hfails]

theorem alongOutline_ofText {ε : Type} (compile : List Char → Except Error ε)
    (text : List Char) : AlongOutline compile text (ofText compile text) where
  tree value h := by
    rw [ofText_eq_traverse]
    refine traverse_eq_ok_map fun piece hpiece => ?_
    rw [compilePiece, h piece hpiece]
    rfl
  syntaxError before piece behind error hpieces hbefore hpiece :=
    ofText_eq_error hpieces hbefore hpiece
  otherError before piece behind error hpieces hbefore hpiece hother := by
    rw [ofText_eq_error hpieces hbefore hpiece]
    cases error with
    | badSyntax syntaxError => exact absurd rfl (hother syntaxError)
    | invalidParameter => rfl
    | evaluation => rfl
  shape tree htree := by
    rw [ofText_eq_traverse] at htree
    exact shape_traverse htree

end ArgTree

end GridFormula
