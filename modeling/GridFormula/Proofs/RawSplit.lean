import GridFormula.Proofs.Arguments

/-!
# Raw splits

The full split of a text trims its pieces and leaves blank ones out. The *raw split* cuts the text
in the same places and keeps the pieces as they are, so nothing of the text is lost in it. What the
scan does to a piece is seen on the raw split, and the full split is the raw split trimmed.

A piece holds no separator at its top. When a separator stands behind it, it is also complete: the
scan was at the top in front of the piece and is at the top again in front of that separator.

## Main definitions

* `ArgTree.rawSplit`: a text cut at all three separators, with its pieces kept as they are.
* `ArgTree.trimmed`: a tree of pieces with the blanks taken off.

## Main results

* `ArgTree.divides_rawSplit`: the raw split is graded, its text is the text, and its pieces join.
* `ArgTree.trimmed_rawSplit`: the full split is the raw split trimmed.
* `ArgTree.isPart_of_mem_fullSplit`, `ArgTree.exists_complete_of_mem_dropLast`: what the leaves of
  the full split are.
-/

namespace GridFormula

open Text (isBlank allBlank Padded)

namespace Scan

/-! ### Pieces -/

/-- Padding a text does not make or hide separators. -/
theorem hasSeparator_padded {sep : Char} (hsep : isBlank sep = false) {text padded : List Char}
    (h : Padded text padded) : hasSeparator sep padded = hasSeparator sep text := by
  have hlength := (pieces_padded hsep h).length_eq
  simp only [pieces, List.length_cons, Nat.add_right_cancel_iff] at hlength
  rw [Bool.eq_iff_iff, ← not_iff_not, Bool.not_eq_true, Bool.not_eq_true, hasSeparator,
    hasSeparator, ← piecesFrom_snd_eq_nil_iff, ← piecesFrom_snd_eq_nil_iff,
    ← List.length_eq_zero_iff, ← List.length_eq_zero_iff, hlength]

theorem Undivided.trim {text : List Char} (h : Undivided text) : Undivided (Text.trim text) := by
  intro level sep hsep
  rw [← hasSeparator_padded (isBlank_of_separator? hsep) (Text.padded_trim text)]
  exact h hsep

/-- A piece holds no separator of its own, and no other one that the text does not hold. -/
theorem hasSeparatorFrom_piecesFrom {sep other : Char} (hplain : isPlain sep = true) {s : State}
    {text : List Char} (h : other = sep ∨ hasSeparatorFrom other s text = false) :
    hasSeparatorFrom other s (piecesFrom sep s text).1 = false ∧
      ∀ piece ∈ (piecesFrom sep s text).2, hasSeparator other piece = false := by
  induction text generalizing s with
  | nil => exact ⟨rfl, nofun⟩
  | cons c rest ih =>
    rw [hasSeparatorFrom, Bool.or_eq_false_iff] at h
    rw [piecesFrom]
    split
    · next hsep =>
      obtain ⟨htop, rfl⟩ : s.isTop = true ∧ c = sep := by simpa using hsep
      obtain rfl := (State.isTop_iff s).1 htop
      have hstep : State.top.step c = .top := State.step_of_isPlain hplain none
      rw [hstep] at h
      obtain ⟨hfirst, hothers⟩ := ih (h.imp_right And.right)
      exact ⟨rfl, List.forall_mem_cons.2 ⟨hfirst, hothers⟩⟩
    · next hsep =>
      obtain ⟨hfirst, hothers⟩ := ih (h.imp_right And.right)
      refine ⟨?_, hothers⟩
      rw [hasSeparatorFrom, hfirst, Bool.or_false]
      rcases h with rfl | ⟨h, -⟩
      · simpa using hsep
      · exact h

theorem hasSeparator_of_mem_pieces {sep other : Char} (hplain : isPlain sep = true)
    {text : List Char} (h : other = sep ∨ hasSeparator other text = false) :
    ∀ piece ∈ pieces sep text, hasSeparator other piece = false :=
  List.forall_mem_cons.2 (hasSeparatorFrom_piecesFrom hplain h)

theorem complete_of_piecesFrom {sep : Char} {s : State} {text : List Char}
    (h : (piecesFrom sep s text).2 ≠ []) :
    s.run (piecesFrom sep s text).1 = .top ∧
      ∀ piece ∈ (piecesFrom sep s text).2.dropLast, Complete piece := by
  induction text generalizing s with
  | nil => exact absurd rfl h
  | cons c rest ih =>
    rw [piecesFrom] at h ⊢
    split at h
    · next hsep =>
      obtain ⟨htop, -⟩ : s.isTop = true ∧ c = sep := by simpa using hsep
      rw [if_pos hsep]
      refine ⟨(State.isTop_iff s).1 htop, ?_⟩
      dsimp only
      by_cases hothers : (piecesFrom sep .top rest).2 = []
      · simp [hothers]
      · rw [List.dropLast_cons_of_ne_nil hothers]
        exact List.forall_mem_cons.2 (ih hothers)
    · next hsep =>
      rw [if_neg hsep]
      exact ih h

/-- A piece that a separator stands behind is **complete**. -/
theorem complete_of_mem_pieces {sep : Char} {text : List Char} :
    ∀ piece ∈ (pieces sep text).dropLast, Complete piece := by
  rw [pieces]
  by_cases hothers : (piecesFrom sep .top text).2 = []
  · simp [hothers]
  · rw [List.dropLast_cons_of_ne_nil hothers]
    exact List.forall_mem_cons.2 (complete_of_piecesFrom hothers)

end Scan

namespace ArgTree

open Scan (Complete Undivided)

/-! ### Raw splits -/

/-- The **raw split** of a text: cut like the full split, with its pieces kept as they are. -/
def rawSplit (text : List Char) : ArgTree (List Char) :=
  cut .semicolon ';' (cut .comma ',' (cut .colon ':' .leaf)) text

/-- A way to split texts **divides** them at the separators of some levels when it takes nothing off
a text, leaves nothing to divide, and each piece but the last is complete. -/
structure Divides (levels : List Level) (split : List Char → ArgTree (List Char)) : Prop where
  /-- The groups go from coarser to finer levels. -/
  graded : ∀ text, Graded levels (split text)
  /-- The pieces with their separators are the text. -/
  text_eq : ∀ text, (split text).text id = text
  /-- The pieces join. -/
  joins : ∀ text, Joins id (split text)
  /-- A text without other separators is divided into pieces without any. -/
  undivided : ∀ text, (∀ level sep, level.separator? = some sep → level ∉ levels →
    Scan.hasSeparator sep text = false) → ∀ piece ∈ (split text).expressions, Undivided piece

theorem divides_leaf : Divides [] .leaf where
  graded := .leaf
  text_eq _ := rfl
  joins _ := nofun
  undivided text h piece hpiece := by
    obtain rfl : piece = text := by simpa using hpiece
    exact fun level sep hsep => h level sep hsep List.not_mem_nil

/-- Cutting at one more separator **divides** at one more level. -/
theorem Divides.cut {levels : List Level} {inner : List Char → ArgTree (List Char)}
    (hinner : Divides levels inner) {level : Level} {sep : Char}
    (hsep : level.separator? = some sep) : Divides (level :: levels) (cut level sep inner) where
  graded := graded_cut hsep hinner.graded
  text_eq text := by
    cases h : Scan.hasSeparator sep text with
    | false => rw [cut_of_no_separator level h, hinner.text_eq]
    | true =>
      have hslots : ((Scan.pieces sep text).map inner).map (ArgTree.text id) =
          Scan.pieces sep text := by
        rw [List.map_map]
        exact (List.map_congr_left fun piece _ => hinner.text_eq piece).trans (List.map_id' _)
      rw [cut_of_separator level h, ArgTree.text, hsep, Option.toList_some,
        slotsText_eq_intercalate, hslots, Scan.intercalate_pieces]
  joins text := by
    cases h : Scan.hasSeparator sep text with
    | false =>
      rw [cut_of_no_separator level h]
      exact hinner.joins text
    | true =>
      rw [cut_of_separator level h, joins_group_iff, ← List.map_dropLast]
      · refine ⟨List.forall_mem_map.2 fun piece _ => hinner.joins piece,
          List.forall_mem_map.2 fun piece hpiece => ?_⟩
        -- a separator stands behind the piece, so it is complete, and its own pieces are
        refine (complete_text_iff (hinner.graded piece) (hinner.joins piece)).1 ?_
        rw [hinner.text_eq]
        exact Scan.complete_of_mem_pieces piece hpiece
      · exact List.forall_mem_map.2 fun piece _ => (hinner.graded piece).leaves_ne_nil
  undivided text h := by
    have hpart : ∀ piece ∈ Scan.pieces sep text, ∀ e ∈ (inner piece).expressions, Undivided e := by
      intro piece hpiece
      refine hinner.undivided piece fun other sep' hsep' hother => ?_
      refine Scan.hasSeparator_of_mem_pieces (Scan.isPlain_of_separator? hsep) ?_ piece hpiece
      by_cases hlevel : other = level
      · subst hlevel
        exact .inl (Option.some.inj (hsep'.symm.trans hsep))
      · exact .inr (h other sep' hsep' (by simp [hlevel, hother]))
    rw [ArgTree.cut, expressions_collapse, List.flatMap_map, List.forall_mem_flatMap]
    exact hpart

theorem divides_rawSplit : Divides [.semicolon, .comma, .colon] rawSplit :=
  ((divides_leaf.cut rfl).cut rfl).cut rfl

theorem undivided_of_mem_rawSplit {text : List Char} :
    ∀ piece ∈ (rawSplit text).expressions, Undivided piece := by
  refine divides_rawSplit.undivided text fun level sep hsep hlevel => ?_
  cases level with
  | top => cases hsep
  | semicolon | comma | colon => simp at hlevel

/-! ### Trimming a tree -/

mutual

/-- The tree with its pieces **trimmed**, and blank ones left out. -/
def trimmed : ArgTree (List Char) → ArgTree (List Char)
  | .omitted => .omitted
  | .leaf piece => innermost piece
  | .group level slots => .group level (slotsTrimmed slots)

/-- The slots with their pieces trimmed, and blank ones left out. -/
def slotsTrimmed : List (ArgTree (List Char)) → List (ArgTree (List Char))
  | [] => []
  | slot :: others => trimmed slot :: slotsTrimmed others

end

theorem slotsTrimmed_eq_map (slots : List (ArgTree (List Char))) :
    slotsTrimmed slots = slots.map trimmed := by
  induction slots with
  | nil => rfl
  | cons slot others ih => rw [slotsTrimmed, ih, List.map_cons]

theorem trimmed_cut (level : Level) (sep : Char) (inner : List Char → ArgTree (List Char))
    (text : List Char) :
    (cut level sep inner text).trimmed = cut level sep (fun piece => (inner piece).trimmed) text := by
  cases h : Scan.hasSeparator sep text with
  | false => rw [cut_of_no_separator level h, cut_of_no_separator level h]
  | true =>
    rw [cut_of_separator level h, cut_of_separator level h, trimmed, slotsTrimmed_eq_map,
      List.map_map]
    rfl

/-- The full split is the **raw split trimmed**. -/
theorem trimmed_rawSplit (text : List Char) : (rawSplit text).trimmed = fullSplit text := by
  simp only [rawSplit, trimmed_cut, trimmed]
  rfl

/-- A piece as an argument: trimmed, or left out when it is blank. -/
def trimmedLeaf (piece : List Char) : Option (List Char) :=
  if allBlank piece then none else some (Text.trim piece)

theorem leaves_trimmed (tree : ArgTree (List Char)) :
    tree.trimmed.leaves = tree.leaves.map fun leaf => leaf.bind trimmedLeaf := by
  induction tree with
  | omitted => rfl
  | leaf piece =>
    rw [trimmed, innermost, leaves]
    cases h : allBlank piece <;> simp [trimmedLeaf, leaves, h]
  | group level slots ih =>
    rw [trimmed, slotsTrimmed_eq_map, leaves, leaves, slotsLeaves_eq_flatMap,
      slotsLeaves_eq_flatMap, List.flatMap_map, List.map_flatMap, List.flatMap_def,
      List.flatMap_def, List.map_congr_left ih]

theorem text_trimmed (tree : ArgTree (List Char)) :
    tree.trimmed.text id = tree.text Text.trim := by
  induction tree with
  | omitted => rfl
  | leaf piece =>
    rw [trimmed, innermost, text]
    cases h : allBlank piece with
    | false => rfl
    | true => exact ((Text.trim_eq_nil_iff piece).2 h).symm
  | group level slots ih =>
    rw [trimmed, slotsTrimmed_eq_map, text, text, slotsText_eq_intercalate,
      slotsText_eq_intercalate, List.map_map]
    exact congrArg _ (List.map_congr_left ih)

/-- The characters of the text of a tree are those of its leaves and of its separators. -/
theorem length_text {ε : Type} (render : ε → List Char) (tree : ArgTree ε) :
    (tree.text render).length =
      (tree.expressions.map fun e => (render e).length).sum + (tree.text fun _ => []).length := by
  induction tree with
  | omitted => rfl
  | leaf e => simp [text]
  | group level slots ih =>
    rw [expressions_group, text, text]
    induction slots with
    | nil => rfl
    | cons slot others ihothers =>
      have hslot := ih slot (by simp)
      have hothers := ihothers fun slot hslot => ih slot (by simp [hslot])
      cases others with
      | nil => simpa [slotsText] using hslot
      | cons next others =>
        rw [slotsText_cons_cons, slotsText_cons_cons, List.flatMap_cons, List.map_append,
          List.sum_append]
        simp only [List.length_append, hslot, hothers]
        omega

/-- Trimming takes nothing off a tree when it takes nothing off its text. -/
theorem trim_eq_of_text_trim {tree : ArgTree (List Char)} (h : tree.text Text.trim = tree.text id) :
    ∀ piece ∈ tree.expressions, Text.trim piece = piece := by
  have hsum := congrArg List.length h
  rw [length_text, length_text id, Nat.add_right_cancel_iff] at hsum
  intro piece hpiece
  by_contra hne
  -- one piece that is longer than what trimming leaves of it makes the whole text longer
  have hlonger : (Text.trim piece).length < piece.length :=
    Nat.lt_of_le_of_ne (Text.trim_sublist piece).length_le fun hlength =>
      hne ((Text.trim_sublist piece).eq_of_length hlength)
  exact (List.sum_lt_sum _ _ (fun piece _ => (Text.trim_sublist piece).length_le)
    ⟨piece, hpiece, hlonger⟩).ne hsum

/-! ### Leaves of the full split -/

theorem bind_trimmedLeaf_eq_some_iff {leaf? : Option (List Char)} {leaf : List Char} :
    leaf?.bind trimmedLeaf = some leaf ↔
      ∃ piece, leaf? = some piece ∧ allBlank piece = false ∧ Text.trim piece = leaf := by
  simp [Option.bind_eq_some_iff, trimmedLeaf]

/-- A leaf of the full split is a part of argument text, and trimmed. -/
theorem isPart_of_mem_fullSplit {text leaf : List Char} (h : leaf ∈ (fullSplit text).expressions) :
    IsPart leaf ∧ Text.trim leaf = leaf := by
  rw [mem_expressions_iff, ← trimmed_rawSplit, leaves_trimmed, List.mem_map] at h
  obtain ⟨_, hmem, h⟩ := h
  obtain ⟨piece, rfl, hblank, rfl⟩ := bind_trimmedLeaf_eq_some_iff.1 h
  refine ⟨⟨(undivided_of_mem_rawSplit piece (mem_expressions_iff.2 hmem)).trim, ?_⟩,
    Text.trim_trim piece⟩
  rwa [(Text.padded_trim piece).allBlank_eq] at hblank

/-- A leaf of the full split with a separator behind it is a complete piece, trimmed. -/
theorem exists_complete_of_mem_dropLast {text leaf : List Char}
    (h : some leaf ∈ (fullSplit text).leaves.dropLast) :
    ∃ piece ∈ (rawSplit text).expressions, Complete piece ∧ Text.trim piece = leaf := by
  rw [← trimmed_rawSplit, leaves_trimmed, ← List.map_dropLast, List.mem_map] at h
  obtain ⟨_, hmem, h⟩ := h
  obtain ⟨piece, rfl, -, hleaf⟩ := bind_trimmedLeaf_eq_some_iff.1 h
  exact ⟨piece, mem_expressions_iff.2 (List.mem_of_mem_dropLast hmem),
    divides_rawSplit.joins text piece hmem, hleaf⟩

end ArgTree

end GridFormula
