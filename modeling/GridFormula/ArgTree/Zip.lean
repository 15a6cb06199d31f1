import GridFormula.ArgTree.Leaves
import Mathlib.Data.List.Forall2

/-!
# Trees side by side

Two trees with the same image under two functions have one shape, and can be laid side by side as
one tree of pairs. What is known of the leaves of either one is then known of the pairs.

## Main results

* `ArgTree.exists_row`: a row of trees from what is known at each place of two rows.
* `ArgTree.exists_zip`: two trees with the same image as one tree of pairs.
-/

namespace GridFormula.ArgTree

variable {ε φ ψ : Type}

/-- A tree for each place of two rows makes **one row of trees**. -/
theorem exists_row {α β : Type} {first : ArgTree ε → α} {second : ArgTree ε → β} {P : ε → Prop}
    {as : List α} {bs : List β}
    (h : List.Forall₂ (fun a b => ∃ tree, first tree = a ∧ second tree = b ∧
      ∀ e ∈ tree.expressions, P e) as bs) :
    ∃ trees : List (ArgTree ε), trees.map first = as ∧ trees.map second = bs ∧
      ∀ e ∈ trees.flatMap expressions, P e := by
  induction h with
  | nil => exact ⟨[], rfl, rfl, nofun⟩
  | cons hplace _ ih =>
    obtain ⟨tree, rfl, rfl, htree⟩ := hplace
    obtain ⟨trees, rfl, rfl, htrees⟩ := ih
    refine ⟨tree :: trees, rfl, rfl, ?_⟩
    rw [List.flatMap_cons, List.forall_mem_append]
    exact ⟨htree, htrees⟩

/-- Two trees with the same image are the two sides of **one tree of pairs**. -/
theorem exists_zip {f : ε → ψ} {g : φ → ψ} {tree : ArgTree ε} {other : ArgTree φ}
    (h : tree.map f = other.map g) :
    ∃ pairs : ArgTree (ε × φ), pairs.map Prod.fst = tree ∧ pairs.map Prod.snd = other ∧
      ∀ pair ∈ pairs.expressions, f pair.1 = g pair.2 := by
  induction tree generalizing other with
  | omitted =>
    cases other with
    | omitted => exact ⟨.omitted, rfl, rfl, nofun⟩
    | leaf | group => cases h
  | leaf e =>
    cases other with
    | leaf d => exact ⟨.leaf (e, d), rfl, rfl, by simpa [map] using h⟩
    | omitted | group => cases h
  | group level slots ih =>
    cases other with
    | omitted | leaf => cases h
    | group level' others =>
      simp only [map, mapSlots_eq_map, group.injEq] at h
      obtain ⟨rfl, hslots⟩ := h
      have hplaces : List.Forall₂ (fun slot other => slot.map f = other.map g) slots others := by
        rwa [← List.forall₂_eq_eq_eq, List.forall₂_map_left_iff, List.forall₂_map_right_iff]
          at hslots
      have hrow := ((List.forall₂_and_left slots others).2
        ⟨fun slot hslot => @ih slot hslot, hplaces⟩).imp fun _ _ hplace => hplace.1 hplace.2
      obtain ⟨pairs, hfirst, hsecond, hpairs⟩ := exists_row hrow
      refine ⟨.group level pairs, ?_, ?_, ?_⟩
      · rw [map, mapSlots_eq_map, hfirst]
      · rw [map, mapSlots_eq_map, hsecond]
      · rwa [expressions_group]

end GridFormula.ArgTree
