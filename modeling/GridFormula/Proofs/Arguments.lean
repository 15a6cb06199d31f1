import GridFormula.Proofs.Balance

/-!
# Written arguments

The text of an argument tree is split into the texts of its leaves again. No separator is put around
a group, so this takes trees that are graded, with the groups of finer levels inside those of
coarser ones, and leaves whose texts hold no separator at their top and are not blank. Trees that
come from a text are graded.

A separator counts where the scan is at the top, so what stands in front of one has to be complete.
Only the leaf in the very last slot may leave the scan anywhere. Leaves that are closed can stand in
any slot, and the whole text is closed then.

## Main definitions

* `ArgTree.Graded`: trees whose groups go from coarser to finer levels.
* `ArgTree.Joins`: trees whose leaves are complete, but for the one in the very last slot.
* `ArgTree.IsPart`, `ArgTree.IsArgument`: what the text of a leaf has to be.

## Main results

* `ArgTree.graded_fullSplit`: the full split of a text is graded.
* `ArgTree.fullSplit_text_of_joins`: the text of a graded tree whose leaves join is split into that
  tree.
* `ArgTree.fullSplit_text`: so is the text of a graded tree of closed leaves.
* `Scan.splitAtCloser_of_closed`: the scan finds the parenthesis behind a closed text.
-/

namespace GridFormula

open Text (allBlank)

namespace Scan

/-- In front of a text, a closed text is what a bracket behind it closes. -/
theorem splitAtCloser_of_closed {text : List Char} (h : Closed text) (bracket : Bracket)
    (behind : List Char) :
    splitAtCloser bracket (text ++ bracket.closer :: behind) = some (text, behind) := by
  have hclose : State.step ⟨some ⟨bracket, 0⟩, none, false⟩ bracket.closer = .top := by
    cases bracket <;> rfl
  rw [splitAtCloser, State.inside, splitAtTop_append_of_none (h.splitAtTop_eq ⟨bracket, 0⟩),
    h.run_eq, splitAtTop, hclose]
  simp

/-- A text without separators at the top begins the first piece of what it stands in front of. -/
theorem piecesFrom_append {sep : Char} {s : State} {first : List Char}
    (h : hasSeparatorFrom sep s first = false) (second : List Char) :
    piecesFrom sep s (first ++ second) =
      (first ++ (piecesFrom sep (s.run first) second).1,
        (piecesFrom sep (s.run first) second).2) := by
  induction first generalizing s with
  | nil => rfl
  | cons c rest ih =>
    rw [hasSeparatorFrom, Bool.or_eq_false_iff] at h
    rw [List.cons_append, piecesFrom, if_neg (by simp [h.1]), ih h.2]
    rfl

/-- A closed text is complete. -/
theorem Closed.complete {text : List Char} (h : Closed text) : Complete text := h.run_eq none

theorem isPlain_of_separator? {level : Level} {sep : Char} (h : level.separator? = some sep) :
    isPlain sep = true := by
  cases level <;> cases h <;> rfl

/-- Texts without separators at the top are the **pieces** of what they make up together, when all
but the last are complete. -/
theorem pieces_intercalate {sep : Char} {texts : List (List Char)} (hne : texts ≠ [])
    (hcomplete : ∀ text ∈ texts.dropLast, Complete text)
    (hnone : ∀ text ∈ texts, hasSeparator sep text = false) :
    pieces sep ([sep].intercalate texts) = texts := by
  induction texts with
  | nil => exact absurd rfl hne
  | cons text others ih =>
    obtain ⟨htext, hothers⟩ := List.forall_mem_cons.1 hnone
    cases others with
    | nil =>
      have hone : [sep].intercalate [text] = text := by simp [List.intercalate]
      rw [hone, pieces_eq_singleton htext]
    | cons next others =>
      obtain ⟨hrun, hinit⟩ := List.forall_mem_cons.1 hcomplete
      have hrest := ih (List.cons_ne_nil _ _) hinit hothers
      rw [intercalate_cons_cons, pieces, piecesFrom_append htext, hrun, piecesFrom,
        if_pos (by simp)]
      simp only [List.append_nil]
      exact congrArg (List.cons text) hrest

/-- Between texts of which all but the last are complete, another separator separates none of
them. -/
theorem hasSeparator_intercalate {sep other : Char} (hne : sep ≠ other)
    (hplain : isPlain sep = true) {texts : List (List Char)}
    (hcomplete : ∀ text ∈ texts.dropLast, Complete text)
    (hnone : ∀ text ∈ texts, hasSeparator other text = false) :
    hasSeparator other ([sep].intercalate texts) = false := by
  induction texts with
  | nil => rfl
  | cons text others ih =>
    obtain ⟨htext, hothers⟩ := List.forall_mem_cons.1 hnone
    cases others with
    | nil => simpa [List.intercalate] using htext
    | cons next others =>
      obtain ⟨hrun, hinit⟩ := List.forall_mem_cons.1 hcomplete
      have hstep : State.top.step sep = .top := State.step_of_isPlain hplain none
      rw [intercalate_cons_cons, hasSeparator, hasSeparatorFrom_append, hrun, hasSeparatorFrom,
        hstep]
      simpa [hne] using ⟨htext, ih hinit hothers⟩

/-- What texts make up together is complete when each of them is. -/
theorem complete_intercalate_iff {sep : Char} (hplain : isPlain sep = true)
    {texts : List (List Char)} (hcomplete : ∀ text ∈ texts.dropLast, Complete text) :
    Complete ([sep].intercalate texts) ↔ ∀ text ∈ texts, Complete text := by
  induction texts with
  | nil => exact iff_of_true rfl nofun
  | cons text others ih =>
    cases others with
    | nil => simp [List.intercalate]
    | cons next others =>
      obtain ⟨hrun, hinit⟩ := List.forall_mem_cons.1 hcomplete
      have hstep : State.top.step sep = .top := State.step_of_isPlain hplain none
      rw [List.forall_mem_cons, and_iff_right hrun, ← ih hinit, intercalate_cons_cons, Complete,
        State.run_append, hrun, State.run_cons, hstep]
      rfl

end Scan

namespace ArgTree

open Scan (Closed Complete Undivided)

variable {ε φ : Type}

/-! ### Graded trees -/

/-- A tree is **graded** by some levels, the coarsest first, when a group of one of them holds at
least two slots and only groups of later ones. -/
inductive Graded : List Level → ArgTree ε → Prop
  /-- An omitted argument. -/
  | omitted : Graded [] .omitted
  /-- A single expression. -/
  | leaf (e : ε) : Graded [] (.leaf e)
  /-- No group of the first level. -/
  | finer {level : Level} {levels : List Level} {tree : ArgTree ε} :
      Graded levels tree → Graded (level :: levels) tree
  /-- A group of the first level. -/
  | group {level : Level} {sep : Char} {levels : List Level} {slots : List (ArgTree ε)} :
      level.separator? = some sep → 2 ≤ slots.length → (∀ slot ∈ slots, Graded levels slot) →
        Graded (level :: levels) (.group level slots)

theorem Graded.map {levels : List Level} {tree : ArgTree ε} (h : Graded levels tree) (f : ε → φ) :
    Graded levels (tree.map f) := by
  induction h with
  | omitted => exact .omitted
  | leaf e => exact .leaf (f e)
  | finer _ ih => exact .finer ih
  | group hsep hlength _ ih =>
    rw [ArgTree.map, mapSlots_eq_map]
    refine .group hsep (by rwa [List.length_map]) fun slot hslot => ?_
    obtain ⟨slot', hslot', rfl⟩ := List.mem_map.1 hslot
    exact ih slot' hslot'

/-- Whether a tree is graded does not depend on its expressions. -/
theorem Graded.of_map {levels : List Level} {tree : ArgTree ε} {f : ε → φ}
    (h : Graded levels (tree.map f)) : Graded levels tree := by
  generalize htree : tree.map f = tree' at h
  induction h generalizing tree with
  | omitted =>
    cases tree <;> cases htree
    exact .omitted
  | leaf =>
    cases tree <;> cases htree
    exact .leaf _
  | finer _ ih => exact .finer (ih htree)
  | group hsep hlength _ ih =>
    cases tree with
    | omitted => cases htree
    | leaf => cases htree
    | group level slots =>
      rw [ArgTree.map, mapSlots_eq_map] at htree
      cases htree
      rw [List.length_map] at hlength
      exact .group hsep hlength fun slot hslot => ih _ (List.mem_map_of_mem hslot) rfl

theorem graded_cut {level : Level} {sep : Char} {levels : List Level}
    {inner : List Char → ArgTree (List Char)} (hsep : level.separator? = some sep)
    (hinner : ∀ text, Graded levels (inner text)) (text : List Char) :
    Graded (level :: levels) (cut level sep inner text) := by
  cases h : Scan.hasSeparator sep text with
  | false =>
    rw [cut_of_no_separator level h]
    exact .finer (hinner text)
  | true =>
    obtain ⟨first, next, others, hpieces⟩ := Scan.exists_pieces_eq_cons_cons h
    rw [cut_of_separator level h]
    refine .group hsep (by simp [hpieces]) fun slot hslot => ?_
    obtain ⟨piece, -, rfl⟩ := List.mem_map.1 hslot
    exact hinner piece

/-- The **full split** of a text is graded by the levels that have separators. -/
theorem graded_fullSplit (text : List Char) :
    Graded [.semicolon, .comma, .colon] (fullSplit text) := by
  have hinnermost : ∀ text, Graded [] (innermost text) := by
    intro text
    unfold innermost
    split
    · exact .omitted
    · exact .leaf _
  exact graded_cut rfl (graded_cut rfl (graded_cut rfl hinnermost)) text

/-! ### Splitting the text of a tree -/

theorem slotsText_cons_cons (render : ε → List Char) (separator : List Char)
    (slot next : ArgTree ε) (others : List (ArgTree ε)) :
    slotsText render separator (slot :: next :: others) =
      slot.text render ++ (separator ++ slotsText render separator (next :: others)) := by
  rw [slotsText]
  nofun

theorem slotsText_eq_intercalate (render : ε → List Char) (separator : List Char)
    (slots : List (ArgTree ε)) :
    slotsText render separator slots = separator.intercalate (slots.map (text render)) := by
  induction slots with
  | nil => rfl
  | cons slot others ih =>
    cases others with
    | nil => simp [slotsText]
    | cons next others =>
      rw [slotsText_cons_cons, ih]
      simp only [List.map_cons, List.intercalate_cons_cons, List.append_assoc]

theorem text_map (render : φ → List Char) (f : ε → φ) (tree : ArgTree ε) :
    (tree.map f).text render = tree.text fun e => render (f e) := by
  induction tree with
  | omitted => rfl
  | leaf e => rfl
  | group level slots ih =>
    rw [map, mapSlots_eq_map, text, text, slotsText_eq_intercalate, slotsText_eq_intercalate,
      List.map_map]
    exact congrArg _ (List.map_congr_left ih)

section Written

variable {render : ε → List Char}

/-- A text can stand for a **part** of argument text when it is undivided and not blank. -/
structure IsPart (text : List Char) : Prop where
  /-- No separator stands at its top. -/
  undivided : Undivided text
  /-- The text would be left out if it were blank. -/
  not_blank : allBlank text = false

/-- A part that is closed can stand for an **argument** wherever it is put. -/
structure IsArgument (text : List Char) : Prop extends IsPart text where
  /-- The scan is behind the text where it was in front of it. -/
  closed : Closed text

/-- The leaves of a tree **join** when all but the last are complete. Behind each of them the scan
is at the top, so that the separator there counts. -/
def Joins (render : ε → List Char) (tree : ArgTree ε) : Prop :=
  ∀ e, some e ∈ tree.leaves.dropLast → Complete (render e)

theorem mem_expressions_iff {tree : ArgTree ε} {e : ε} :
    e ∈ tree.expressions ↔ some e ∈ tree.leaves := by
  simp [expressions]

theorem joins_of_complete {tree : ArgTree ε} (h : ∀ e ∈ tree.expressions, Complete (render e)) :
    Joins render tree :=
  fun e he => h e (mem_expressions_iff.2 (List.mem_of_mem_dropLast he))

theorem Graded.leaves_ne_nil {levels : List Level} {tree : ArgTree ε} (h : Graded levels tree) :
    tree.leaves ≠ [] := by
  induction h with
  | omitted | leaf => exact List.cons_ne_nil _ _
  | finer _ ih => exact ih
  | @group _ _ _ slots _ hlength _ ih =>
    obtain ⟨slot, others, rfl⟩ := List.exists_cons_of_length_pos (Nat.lt_of_lt_of_le two_pos hlength)
    rw [leaves, slotsLeaves]
    exact List.append_ne_nil_of_left_ne_nil (ih slot (by simp)) _

/-- The leaves of a group **join** when those of every slot do, and those in front of the last slot
are all complete. -/
theorem joins_group_iff {level : Level} {slots : List (ArgTree ε)}
    (hne : ∀ slot ∈ slots, slot.leaves ≠ []) :
    Joins render (.group level slots) ↔ (∀ slot ∈ slots, Joins render slot) ∧
      ∀ slot ∈ slots.dropLast, ∀ e ∈ slot.expressions, Complete (render e) := by
  obtain rfl | ⟨init, last, rfl⟩ := slots.eq_nil_or_concat'
  · exact iff_of_true nofun ⟨nofun, nofun⟩
  · have hleaves : (group level (init ++ [last])).leaves.dropLast =
        init.flatMap leaves ++ last.leaves.dropLast := by
      rw [leaves, slotsLeaves_eq_flatMap, List.flatMap_append, List.flatMap_singleton,
        List.dropLast_append_of_ne_nil (hne last (by simp))]
    rw [Joins, hleaves, List.dropLast_concat]
    constructor
    · intro h
      have hinit : ∀ slot ∈ init, ∀ e ∈ slot.expressions, Complete (render e) := by
        intro slot hslot e he
        refine h e (List.mem_append_left _ (List.mem_flatMap.2 ⟨slot, hslot, ?_⟩))
        exact mem_expressions_iff.1 he
      refine ⟨fun slot hslot => ?_, hinit⟩
      rcases List.mem_append.1 hslot with hslot | hslot
      · exact joins_of_complete (hinit slot hslot)
      · obtain rfl := List.mem_singleton.1 hslot
        exact fun e he => h e (List.mem_append_right _ he)
    · rintro ⟨hslots, hinit⟩ e he
      rcases List.mem_append.1 he with he | he
      · obtain ⟨slot, hslot, he⟩ := List.mem_flatMap.1 he
        exact hinit slot hslot e (mem_expressions_iff.2 he)
      · exact hslots last (by simp) e he

/-- In front of the last slot the texts of a group are complete when its leaves are. -/
theorem complete_of_mem_dropLast {slots : List (ArgTree ε)}
    (hslots : ∀ slot ∈ slots, (∀ e ∈ slot.expressions, Complete (render e)) →
      Complete (slot.text render))
    (hinit : ∀ slot ∈ slots.dropLast, ∀ e ∈ slot.expressions, Complete (render e)) :
    ∀ piece ∈ (slots.map (text render)).dropLast, Complete piece := by
  rw [← List.map_dropLast]
  exact List.forall_mem_map.2 fun slot hslot =>
    hslots slot (List.mem_of_mem_dropLast hslot) (hinit slot hslot)

/-- The text of a graded tree whose leaves join is **complete** when all of them are. -/
theorem complete_text_iff {levels : List Level} {tree : ArgTree ε} (h : Graded levels tree)
    (hjoins : Joins render tree) :
    Complete (tree.text render) ↔ ∀ e ∈ tree.expressions, Complete (render e) := by
  induction h with
  | omitted => exact iff_of_true rfl nofun
  | leaf e => simp [text]
  | finer _ ih => exact ih hjoins
  | @group level sep levels slots hsep _ hslots ih =>
    obtain ⟨hjoins, hinit⟩ :=
      (joins_group_iff fun slot hslot => (hslots slot hslot).leaves_ne_nil).1 hjoins
    have hcomplete := complete_of_mem_dropLast
      (fun slot hslot => (ih slot hslot (hjoins slot hslot)).2) hinit
    rw [text, hsep, Option.toList_some, slotsText_eq_intercalate,
      Scan.complete_intercalate_iff (Scan.isPlain_of_separator? hsep) hcomplete,
      expressions_group, List.forall_mem_map, List.forall_mem_flatMap]
    exact forall₂_congr fun slot hslot => ih slot hslot (hjoins slot hslot)

/-- In a group whose leaves join, they join in every slot, and the text in front of the last slot is
complete. -/
theorem Joins.slots {level : Level} {levels : List Level} {slots : List (ArgTree ε)}
    (hslots : ∀ slot ∈ slots, Graded levels slot) (h : Joins render (.group level slots)) :
    (∀ slot ∈ slots, Joins render slot) ∧
      ∀ piece ∈ (slots.map (text render)).dropLast, Complete piece := by
  obtain ⟨hjoins, hinit⟩ :=
    (joins_group_iff fun slot hslot => (hslots slot hslot).leaves_ne_nil).1 h
  exact ⟨hjoins, complete_of_mem_dropLast
    (fun slot hslot => (complete_text_iff (hslots slot hslot) (hjoins slot hslot)).2) hinit⟩

theorem mem_expressions_of_mem_slots {level : Level} {slots : List (ArgTree ε)} {slot : ArgTree ε}
    (hslot : slot ∈ slots) {e : ε} (he : e ∈ slot.expressions) :
    e ∈ (group level slots).expressions := by
  rw [expressions_group, List.mem_flatMap]
  exact ⟨slot, hslot, he⟩

/-- The text of a graded tree whose leaves join holds **no separators of other levels** at its
top. -/
theorem hasSeparator_text {levels : List Level} {tree : ArgTree ε} (h : Graded levels tree)
    (hjoins : Joins render tree) (hleaves : ∀ e ∈ tree.expressions, Undivided (render e))
    {level : Level} {sep : Char} (hsep : level.separator? = some sep) (hlevel : level ∉ levels) :
    Scan.hasSeparator sep (tree.text render) = false := by
  induction h with
  | omitted => rfl
  | leaf e => exact hleaves e (by simp) hsep
  | finer _ ih => exact ih hjoins hleaves fun hmem => hlevel (List.mem_cons_of_mem _ hmem)
  | @group own sep' levels slots hsep' _ hslots ih =>
    obtain ⟨hjoins, hcomplete⟩ := hjoins.slots hslots
    rw [List.mem_cons, not_or] at hlevel
    have hne : sep' ≠ sep := by
      rintro rfl
      rw [← Level.ofSeparator?_eq_some_iff] at hsep hsep'
      exact hlevel.1 (Option.some.inj (hsep.symm.trans hsep'))
    rw [text, hsep', Option.toList_some, slotsText_eq_intercalate]
    refine Scan.hasSeparator_intercalate hne (Scan.isPlain_of_separator? hsep') hcomplete
      (List.forall_mem_map.2 fun slot hslot => ?_)
    exact ih slot hslot (hjoins slot hslot)
      (fun e he => hleaves e (mem_expressions_of_mem_slots hslot he)) hlevel.2

/-- A way to split texts **regains** the graded trees of some levels from their texts. -/
def Regains (render : ε → List Char) (levels : List Level)
    (split : List Char → ArgTree (List Char)) : Prop :=
  ∀ tree : ArgTree ε, Graded levels tree → Joins render tree →
    (∀ e ∈ tree.expressions, IsPart (render e)) →
      split (tree.text render) = tree.map fun e => Text.trim (render e)

theorem regains_innermost : Regains render [] innermost := by
  intro tree h _ hleaves
  cases h with
  | omitted => rfl
  | leaf e => exact innermost_of_not_blank (hleaves e (by simp)).not_blank

/-- Cutting at one more separator **regains** one more level. -/
theorem Regains.cut {levels : List Level} {inner : List Char → ArgTree (List Char)}
    (hinner : Regains render levels inner) {level : Level} {sep : Char}
    (hlevel : level ∉ levels) (hsep : level.separator? = some sep) :
    Regains render (level :: levels) (cut level sep inner) := by
  intro tree h hjoins hleaves
  cases h with
  | finer h =>
    have hnone := hasSeparator_text h hjoins (fun e he => (hleaves e he).undivided) hsep hlevel
    rw [cut_of_no_separator level hnone, hinner tree h hjoins hleaves]
  | @group _ sep' _ slots hsep' hlength hslots =>
    obtain rfl : sep' = sep := by simpa [hsep] using hsep'.symm
    obtain ⟨hjoins, hcomplete⟩ := hjoins.slots hslots
    have hslot : ∀ slot ∈ slots, ∀ e ∈ slot.expressions, IsPart (render e) :=
      fun slot hslot e he => hleaves e (mem_expressions_of_mem_slots hslot he)
    have hpieces : Scan.pieces sep' ([sep'].intercalate (slots.map (text render))) =
        slots.map (text render) := by
      refine Scan.pieces_intercalate (fun hnil => ?_) hcomplete
        (List.forall_mem_map.2 fun slot hmem => ?_)
      · rw [List.map_eq_nil_iff] at hnil
        subst hnil
        contradiction
      · exact hasSeparator_text (hslots slot hmem) (hjoins slot hmem)
          (fun e he => (hslot slot hmem e he).undivided) hsep hlevel
    have hmap : (slots.map (text render)).map inner =
        slots.map (ArgTree.map fun e => Text.trim (render e)) := by
      rw [List.map_map]
      exact List.map_congr_left fun slot hmem =>
        hinner slot (hslots slot hmem) (hjoins slot hmem) (hslot slot hmem)
    rw [text, hsep, Option.toList_some, slotsText_eq_intercalate, ArgTree.cut, hpieces, hmap,
      ArgTree.map, mapSlots_eq_map]
    unfold collapse
    split
    · next hone =>
      have hlength' := congrArg List.length hone
      simp only [List.length_map, List.length_singleton] at hlength'
      omega
    · rfl

/-- The text of a graded tree whose leaves join is **split into that tree**. -/
theorem fullSplit_text_of_joins {tree : ArgTree ε} (h : Graded [.semicolon, .comma, .colon] tree)
    (hjoins : Joins render tree) (hleaves : ∀ e ∈ tree.expressions, IsPart (render e)) :
    fullSplit (tree.text render) = tree.map fun e => Text.trim (render e) := by
  have hcolon : Regains render [.colon] (cut .colon ':' innermost) :=
    regains_innermost.cut List.not_mem_nil rfl
  have hcomma : Regains render [.comma, .colon] (cut .comma ',' (cut .colon ':' innermost)) :=
    hcolon.cut (by decide) rfl
  exact hcomma.cut (by decide) rfl tree h hjoins hleaves

/-- The text of a graded tree of **arguments** is split into that tree. -/
theorem fullSplit_text {tree : ArgTree ε} (h : Graded [.semicolon, .comma, .colon] tree)
    (hleaves : ∀ e ∈ tree.expressions, IsArgument (render e)) :
    fullSplit (tree.text render) = tree.map fun e => Text.trim (render e) :=
  fullSplit_text_of_joins h (joins_of_complete fun e he => (hleaves e he).closed.complete)
    fun e he => (hleaves e he).toIsPart

/-- The text of a graded tree of closed leaves is closed. -/
theorem closed_text {levels : List Level} {tree : ArgTree ε} (h : Graded levels tree)
    (hleaves : ∀ e ∈ tree.expressions, Closed (render e)) : Closed (tree.text render) := by
  induction h with
  | omitted => exact Scan.closed_nil
  | leaf e => exact hleaves e (by simp)
  | finer _ ih => exact ih hleaves
  | @group level sep levels slots hsep _ _ ih =>
    rw [text, hsep, Option.toList_some, slotsText_eq_intercalate]
    refine closed_intercalate (Scan.isPlain_of_separator? hsep)
      (List.forall_mem_map.2 fun slot hslot => ?_)
    exact ih slot hslot fun e he => hleaves e (mem_expressions_of_mem_slots hslot he)

end Written

end ArgTree

/-- What reads as an expression can stand for an argument. -/
theorem Expr.isArgument_of_reads {grid : Grid} {text : List Char} {r : Expr}
    (h : Reads grid text r) : ArgTree.IsArgument text := by
  obtain ⟨hclosed, hundivided⟩ := closed_of_reads h
  exact ⟨⟨hundivided, allBlank_of_reads h⟩, hclosed⟩

end GridFormula
