import GridFormula.ArgTree.Leaves
import GridFormula.ArgTree.Slice

/-!
# Laws of slices

A slice is a slot, nothing, or a new group, whichever its range asks for. What is taken out of a
group has a different shape in each case, and still nothing is lost: the leaves of a slice and its
written form are those of the slots in its range. So two ranges that meet give the leaves and the
text of the range that they make up together, and a range of a new group is a range of the group
that it was taken from.

The only range of a new group that this leaves out is a range of a single slot, which is no new
group.

## Main definitions

* `ArgTree.slotsBetween`: the slots of a range.
* `ArgTree.ofSlots?`: what becomes of them.

## Main results

* `ArgTree.leaves_sliceTree_append`, `ArgTree.text_sliceTree_append`: ranges that meet.
* `ArgTree.slice_slice`: a range of a range.
* `ArgTree.slices_of_group`: slices of a group lose nothing.
-/

namespace GridFormula.ArgTree

variable {ε : Type}

/-! ### Rows of slots -/

/-- The slots of a row from one place up to, but not including, another. -/
def slotsBetween (slots : List (ArgTree ε)) (start stop : Nat) : List (ArgTree ε) :=
  (slots.drop start).take (stop - start)

section Rows

variable {slots : List (ArgTree ε)} {a b c d : Nat}

theorem slotsBetween_zero_length : slotsBetween slots 0 slots.length = slots := by
  simp [slotsBetween]

theorem length_slotsBetween (hb : b ≤ slots.length) :
    (slotsBetween slots a b).length = b - a := by
  rw [slotsBetween, List.length_take, List.length_drop]
  omega

/-- Ranges that **meet** make up a range. -/
theorem slotsBetween_append (hab : a ≤ b) (hbc : b ≤ c) :
    slotsBetween slots a b ++ slotsBetween slots b c = slotsBetween slots a c := by
  have hwidth : c - a = (b - a) + (c - b) := by omega
  have hstart : a + (b - a) = b := by omega
  rw [slotsBetween, slotsBetween, slotsBetween, hwidth, List.take_add, List.drop_drop, hstart]

/-- A range of a **range** is a range. -/
theorem slotsBetween_slotsBetween (hd : d ≤ b - a) :
    slotsBetween (slotsBetween slots a b) c d = slotsBetween slots (a + c) (a + d) := by
  have hwidth : a + d - (a + c) = d - c := by omega
  have hroom : min (d - c) (b - a - c) = d - c := by omega
  rw [slotsBetween, slotsBetween, slotsBetween, List.drop_take, List.drop_drop, List.take_take,
    hwidth, hroom]

theorem slotsLeaves_append (first second : List (ArgTree ε)) :
    slotsLeaves (first ++ second) = slotsLeaves first ++ slotsLeaves second := by
  simp [slotsLeaves_eq_flatMap]

/-- Two rows that are written out one behind the other have **one separator** between them. -/
theorem slotsText_append (render : ε → List Char) (separator : List Char)
    {first second : List (ArgTree ε)} (hfirst : first ≠ []) (hsecond : second ≠ []) :
    slotsText render separator (first ++ second) =
      slotsText render separator first ++ (separator ++ slotsText render separator second) := by
  induction first with
  | nil => exact absurd rfl hfirst
  | cons slot others ih =>
    cases others with
    | nil =>
      obtain ⟨next, behind, rfl⟩ := List.exists_cons_of_ne_nil hsecond
      rfl
    | cons next others =>
      have hothers := ih (List.cons_ne_nil _ _)
      simp only [List.cons_append, slotsText, List.append_assoc] at hothers ⊢
      rw [hothers]

end Rows

/-! ### Slices by their slots -/

/-- What becomes of the slots of a range. -/
def ofSlots? (level : Level) : List (ArgTree ε) → Option (Slice ε)
  | [.omitted] => none
  | [only] => some ⟨only, false⟩
  | range => some ⟨.group level range, true⟩

section Slices

variable (level : Level) {slots : List (ArgTree ε)} {a b c d : Nat}

theorem slice_group (hab : a ≤ b) (hb : b ≤ slots.length) :
    (group level slots).slice a b = ofSlots? level (slotsBetween slots a b) := by
  have hrange : (b < a || slots.length < b) = false := by simp; omega
  rw [slice, hrange]
  rfl

/-- A range of other than one slot becomes a **new group**. -/
theorem ofSlots?_of_length_ne_one (h : slots.length ≠ 1) :
    ofSlots? level slots = some ⟨.group level slots, true⟩ := by
  unfold ofSlots?
  split
  · exact absurd rfl h
  · exact absurd rfl h
  · rfl

/-- As a tree, the slots of a range are their only one, or a group of **all of them**. -/
theorem sliceTree_group (hab : a ≤ b) (hb : b ≤ slots.length) :
    slotsBetween slots a b = [sliceTree (group level slots) a b] ∨
      sliceTree (group level slots) a b = group level (slotsBetween slots a b) := by
  rw [sliceTree, slice_group level hab hb]
  generalize slotsBetween slots a b = range
  by_cases hone : range.length = 1
  · obtain ⟨only, rfl⟩ := List.length_eq_one_iff.1 hone
    cases only <;> exact .inl rfl
  · rw [ofSlots?_of_length_ne_one level hone]
    exact .inr rfl

/-- The **leaves** of a slice are those of the slots in its range. -/
theorem leaves_sliceTree (hab : a ≤ b) (hb : b ≤ slots.length) :
    (sliceTree (group level slots) a b).leaves = slotsLeaves (slotsBetween slots a b) := by
  rcases sliceTree_group level hab hb with hrange | htree
  · rw [hrange, slotsLeaves, slotsLeaves, List.append_nil]
  · rw [htree, leaves]

/-- The **written form** of a slice is that of the slots in its range. -/
theorem text_sliceTree (render : ε → List Char) (hab : a ≤ b) (hb : b ≤ slots.length) :
    (sliceTree (group level slots) a b).text render =
      slotsText render level.separator?.toList (slotsBetween slots a b) := by
  rcases sliceTree_group level hab hb with hrange | htree
  · rw [hrange, slotsText]
  · rw [htree, text]

/-! ### Ranges that meet -/

/-- Slices of ranges that meet have the leaves of the range that they **make up together**. -/
theorem leaves_sliceTree_append (hab : a ≤ b) (hbc : b ≤ c) (hc : c ≤ slots.length) :
    (sliceTree (group level slots) a b).leaves ++ (sliceTree (group level slots) b c).leaves =
      (sliceTree (group level slots) a c).leaves := by
  rw [leaves_sliceTree level hab (Nat.le_trans hbc hc), leaves_sliceTree level hbc hc,
    leaves_sliceTree level (Nat.le_trans hab hbc) hc, ← slotsLeaves_append,
    slotsBetween_append hab hbc]

/-- Slices of ranges that meet are **written** as the range that they make up together, with the
separator of the group between them, when there is a slot in both. -/
theorem text_sliceTree_append (render : ε → List Char) (hab : a < b) (hbc : b < c)
    (hc : c ≤ slots.length) :
    (sliceTree (group level slots) a b).text render ++
        (level.separator?.toList ++ (sliceTree (group level slots) b c).text render) =
      (sliceTree (group level slots) a c).text render := by
  have hfirst : slotsBetween slots a b ≠ [] := by
    rw [← List.length_pos_iff, length_slotsBetween (by omega)]
    omega
  have hsecond : slotsBetween slots b c ≠ [] := by
    rw [← List.length_pos_iff, length_slotsBetween hc]
    omega
  rw [text_sliceTree level render (Nat.le_of_lt hab) (by omega),
    text_sliceTree level render (Nat.le_of_lt hbc) hc, text_sliceTree level render (by omega) hc,
    ← slotsText_append _ _ hfirst hsecond,
    slotsBetween_append (Nat.le_of_lt hab) (Nat.le_of_lt hbc)]

/-- A range of a **new group** is a range of the group that it was taken from. -/
theorem slice_slice (hab : a ≤ b) (hb : b ≤ slots.length) (hone : b - a ≠ 1) (hcd : c ≤ d)
    (hd : d ≤ b - a) :
    ∃ taken, (group level slots).slice a b = some taken ∧ taken.isNew = true ∧
      taken.tree.slice c d = (group level slots).slice (a + c) (a + d) := by
  have hlength : (slotsBetween slots a b).length = b - a := length_slotsBetween hb
  refine ⟨⟨group level (slotsBetween slots a b), true⟩, ?_, rfl, ?_⟩
  · rw [slice_group level hab hb, ofSlots?_of_length_ne_one level (hlength ▸ hone)]
  · rw [slice_group level hcd (hlength ▸ hd), slice_group level (by omega) (by omega),
      slotsBetween_slotsBetween hd]

end Slices

/-- **Slices of a group compose and lose nothing.** Cut at any place, the group has the leaves of
the two slices, an absent slice counting as one omitted argument; cut between two slots, it is
written as they are, with its separator between. Any range of other than one slot is a group, and
what is taken out of it is what is taken out of the first group, counted from where the range
begins. -/
theorem slices_of_group (render : ε → List Char) (level : Level) (slots : List (ArgTree ε)) :
    (∀ k ≤ slots.length,
      (sliceTree (group level slots) 0 k).leaves ++
          (sliceTree (group level slots) k slots.length).leaves =
        (group level slots).leaves) ∧
    (∀ k, 0 < k → k < slots.length →
      (sliceTree (group level slots) 0 k).text render ++ (level.separator?.toList ++
          (sliceTree (group level slots) k slots.length).text render) =
        (group level slots).text render) ∧
    ∀ a b c d, a ≤ b → b ≤ slots.length → b - a ≠ 1 → c ≤ d → d ≤ b - a →
      ∃ taken, (group level slots).slice a b = some taken ∧
        taken.tree.slice c d = (group level slots).slice (a + c) (a + d) := by
  refine ⟨fun k hk => ?_, fun k hpos hk => ?_, fun a b c d hab hb hone hcd hd => ?_⟩
  · rw [leaves_sliceTree_append level (Nat.zero_le k) hk (Nat.le_refl _),
      leaves_sliceTree level (Nat.zero_le _) (Nat.le_refl _), slotsBetween_zero_length, leaves]
  · rw [text_sliceTree_append level render hpos hk (Nat.le_refl _),
      text_sliceTree level render (Nat.zero_le _) (Nat.le_refl _), slotsBetween_zero_length, text]
  · obtain ⟨taken, htaken, -, hrest⟩ := slice_slice level hab hb hone hcd hd
    exact ⟨taken, htaken, hrest⟩

/-- In `1,,2:3` cut behind the second slot the first slice ends with the omitted argument, and the
second one is the group `2:3`; the last slot of the slice from the second slot on is the last slot
of all. -/
theorem slices_of_three_slots :
    let slots : List (ArgTree Nat) := [.leaf 1, .omitted, .group .colon [.leaf 2, .leaf 3]]
    (2 ≤ slots.length ∧
      (sliceTree (group .comma slots) 0 2).leaves ++ (sliceTree (group .comma slots) 2 3).leaves =
        [some 1, none, some 2, some 3]) ∧
    (0 < 2 ∧ 2 < slots.length ∧
      (sliceTree (group .comma slots) 0 2).text (Nat.toDigits 10) ++ ([','] ++
          (sliceTree (group .comma slots) 2 3).text (Nat.toDigits 10)) =
        ['1', ',', ',', '2', ':', '3']) ∧
    (1 ≤ 3 ∧ 3 ≤ slots.length ∧ 3 - 1 ≠ 1 ∧ 1 ≤ 2 ∧ 2 ≤ 3 - 1 ∧
      ∃ taken, (group .comma slots).slice 1 3 = some taken ∧
        taken.tree.slice 1 2 = some ⟨.group .colon [.leaf 2, .leaf 3], false⟩) := by
  intro slots
  obtain ⟨hleaves, htext, hslices⟩ := slices_of_group (Nat.toDigits 10) .comma slots
  have hcut : 2 ≤ slots.length := by decide
  have hbehind : 2 < slots.length := by decide
  have hstop : 3 ≤ slots.length := by decide
  exact ⟨⟨hcut, hleaves 2 hcut⟩,
    ⟨by decide, hbehind, (htext 2 (by decide) hbehind).trans (by decide)⟩,
    by decide, hstop, by decide, by decide, by decide,
    hslices 1 3 1 2 (by decide) hstop (by decide) (by decide) (by decide)⟩

end GridFormula.ArgTree
