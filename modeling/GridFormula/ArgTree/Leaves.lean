import GridFormula.ArgTree.Basic

/-!
# The leaves of a tree

Walking a tree from left to right. An omitted slot takes a place of its own, so that positions
correspond to those of the written arguments.

## Main definitions

* `ArgTree.leaves`: all expressions, with `none` for an omitted slot.
* `ArgTree.toFlatList`: the same for a tree that must not nest.
* `ArgTree.map`: a function applied at every leaf.
* `ArgTree.traverse`: a fallible function applied at every leaf, the first failure winning.
* `ArgTree.expressions`, `ArgTree.shape`: the expressions of a tree, and the tree without them.

## Main results

* `ArgTree.traverse_eq_ok_map`, `ArgTree.traverse_eq_error_iff`: the outcome of a traversal by what
  happens at the leaves.
* `ArgTree.traverse_eq_ok_iff`: traversals by functions that differ in a last step.
-/

namespace GridFormula.ArgTree

variable {ε φ : Type}

mutual

/-- All **leaves** from left to right, with `none` for an omitted slot. -/
def leaves : ArgTree ε → List (Option ε)
  | .omitted => [none]
  | .leaf e => [some e]
  | .group _ slots => slotsLeaves slots

/-- The leaves of a row of slots. -/
def slotsLeaves : List (ArgTree ε) → List (Option ε)
  | [] => []
  | slot :: others => leaves slot ++ slotsLeaves others

end

/-- The expression in a slot that must not hold a group. An omitted slot is accepted when
`allowOmitted` is set. -/
def flatSlot (function : String) (allowOmitted : Bool) : ArgTree ε → Except Error (Option ε)
  | .leaf e => .ok (some e)
  | .omitted => if allowOmitted then .ok none else .error (.invalidParameter (some function))
  | .group _ _ => .error (.invalidParameter (some function))

/-- The arguments of `function` as a flat list: one entry per slot of a group, or the single
expression of a leaf. -/
def toFlatList (function : String) (allowOmitted : Bool) (tree : ArgTree ε) :
    Except Error (List (Option ε)) :=
  match tree with
  | .group _ slots => slots.mapM (flatSlot function allowOmitted)
  | tree => (flatSlot function allowOmitted tree).map fun entry => [entry]

mutual

/-- The tree with `f` applied at every leaf. -/
def map (f : ε → φ) : ArgTree ε → ArgTree φ
  | .omitted => .omitted
  | .leaf e => .leaf (f e)
  | .group level slots => .group level (mapSlots f slots)

/-- The slots with `f` applied at every leaf. -/
def mapSlots (f : ε → φ) : List (ArgTree ε) → List (ArgTree φ)
  | [] => []
  | slot :: others => map f slot :: mapSlots f others

end

mutual

/-- The tree with `f` applied at every leaf from left to right. The first failure wins. -/
def traverse (f : ε → Except Error φ) : ArgTree ε → Except Error (ArgTree φ)
  | .omitted => .ok .omitted
  | .leaf e => (f e).map .leaf
  | .group level slots => (traverseSlots f slots).map (.group level)

/-- The slots with `f` applied at every leaf from left to right. -/
def traverseSlots (f : ε → Except Error φ) : List (ArgTree ε) → Except Error (List (ArgTree φ))
  | [] => .ok []
  | slot :: others => do
    let slot ← traverse f slot
    let others ← traverseSlots f others
    pure (slot :: others)

end

/-! ### Rows of slots -/

theorem slotsLeaves_eq_flatMap (slots : List (ArgTree ε)) :
    slotsLeaves slots = slots.flatMap leaves := by
  induction slots with
  | nil => rfl
  | cons slot others ih => simp [slotsLeaves, ih]

theorem mapSlots_eq_map (f : ε → φ) (slots : List (ArgTree ε)) :
    mapSlots f slots = slots.map (map f) := by
  induction slots with
  | nil => rfl
  | cons slot others ih => simp [mapSlots, ih]

theorem traverseSlots_eq_mapM (f : ε → Except Error φ) (slots : List (ArgTree ε)) :
    traverseSlots f slots = slots.mapM (traverse f) := by
  induction slots with
  | nil => rfl
  | cons slot others ih => simp [traverseSlots, ih]

/-! ### Expressions -/

/-- The **expressions** at the leaves, from left to right. -/
def expressions (tree : ArgTree ε) : List ε := tree.leaves.filterMap id

@[simp] theorem expressions_omitted : (omitted : ArgTree ε).expressions = [] := rfl

@[simp] theorem expressions_leaf (e : ε) : (leaf e).expressions = [e] := rfl

@[simp] theorem expressions_group (level : Level) (slots : List (ArgTree ε)) :
    (group level slots).expressions = slots.flatMap expressions := by
  simp only [expressions, leaves, slotsLeaves_eq_flatMap, List.filterMap_flatMap]
  rfl

theorem leaves_map (f : ε → φ) (tree : ArgTree ε) :
    (tree.map f).leaves = tree.leaves.map (Option.map f) := by
  induction tree with
  | omitted => rfl
  | leaf e => rfl
  | group level slots ih =>
    rw [map, mapSlots_eq_map, leaves, leaves, slotsLeaves_eq_flatMap, slotsLeaves_eq_flatMap,
      List.flatMap_map, List.map_flatMap, List.flatMap_def, List.flatMap_def,
      List.map_congr_left ih]

theorem expressions_map (f : ε → φ) (tree : ArgTree ε) :
    (tree.map f).expressions = tree.expressions.map f := by
  rw [expressions, leaves_map, expressions, List.filterMap_map, List.map_filterMap]
  rfl

/-- What is at a leaf is mapped to a leaf. -/
theorem mem_expressions_map (f : ε → φ) {tree : ArgTree ε} {e : ε} (h : e ∈ tree.expressions) :
    f e ∈ (tree.map f).expressions := by
  rw [expressions_map]
  exact List.mem_map_of_mem h

theorem map_map {ψ : Type} (g : φ → ψ) (f : ε → φ) (tree : ArgTree ε) :
    (tree.map f).map g = tree.map fun e => g (f e) := by
  induction tree with
  | omitted => rfl
  | leaf e => rfl
  | group level slots ih =>
    simp only [map, mapSlots_eq_map, List.map_map]
    exact congrArg _ (List.map_congr_left fun slot hslot => ih slot hslot)

theorem map_congr {f g : ε → φ} {tree : ArgTree ε} (h : ∀ e ∈ tree.expressions, f e = g e) :
    tree.map f = tree.map g := by
  induction tree with
  | omitted => rfl
  | leaf e => rw [map, map, h e (by simp)]
  | group level slots ih =>
    simp only [map, mapSlots_eq_map]
    refine congrArg _ (List.map_congr_left fun slot hslot => ih slot hslot fun e he => h e ?_)
    rw [expressions_group, List.mem_flatMap]
    exact ⟨slot, hslot, he⟩

/-- What goes through a tree and applies a function at every leaf is the **map** of that function.
-/
theorem eq_map {f : ε → φ} {g : ArgTree ε → ArgTree φ}
    (gs : List (ArgTree ε) → List (ArgTree φ)) (homitted : g .omitted = .omitted)
    (hleaf : ∀ e, g (.leaf e) = .leaf (f e))
    (hgroup : ∀ level slots, g (.group level slots) = .group level (gs slots)) (hnil : gs [] = [])
    (hcons : ∀ slot others, gs (slot :: others) = g slot :: gs others) (tree : ArgTree ε) :
    g tree = tree.map f := by
  induction tree with
  | omitted => exact homitted
  | leaf e => exact hleaf e
  | group level slots ih =>
    rw [hgroup, map, mapSlots_eq_map]
    congr 1
    induction slots with
    | nil => exact hnil
    | cons slot others ihslots =>
      rw [hcons, List.map_cons, ih slot (by simp),
        ihslots fun slot hslot => ih slot (by simp [hslot])]

theorem map_id' (tree : ArgTree ε) : tree.map (fun e => e) = tree := by
  induction tree with
  | omitted => rfl
  | leaf e => rfl
  | group level slots ih =>
    rw [map, mapSlots_eq_map, List.map_congr_left ih, List.map_id']

theorem map_eq_self {f : ε → ε} {tree : ArgTree ε} (h : ∀ e ∈ tree.expressions, f e = e) :
    tree.map f = tree :=
  (map_congr h).trans (map_id' tree)

/-- Two functions make the same of a tree exactly when they agree on its expressions. -/
theorem map_eq_map_iff {f g : ε → φ} {tree : ArgTree ε} :
    tree.map f = tree.map g ↔ ∀ e ∈ tree.expressions, f e = g e := by
  refine ⟨fun h => ?_, map_congr⟩
  have hexpressions := congrArg expressions h
  rwa [expressions_map, expressions_map, List.map_inj_left] at hexpressions

theorem map_eq_self_iff {f : ε → ε} {tree : ArgTree ε} :
    tree.map f = tree ↔ ∀ e ∈ tree.expressions, f e = e := by
  rw [← map_eq_map_iff, map_id']

/-- The tree without its expressions: its levels, its slots and which of them are omitted. -/
def shape (tree : ArgTree ε) : ArgTree Unit := tree.map fun _ => ()

/-! ### Traversals -/

/-- The error that `f` gives at `e`. -/
def failure? (f : ε → Except Error φ) (e : ε) : Option Error :=
  match f e with
  | .ok _ => none
  | .error error => some error

theorem failure?_eq_some_iff {f : ε → Except Error φ} {e : ε} {error : Error} :
    failure? f e = some error ↔ f e = .error error := by
  unfold failure?
  split <;> simp_all

theorem failure?_eq_none_iff {f : ε → Except Error φ} {e : ε} :
    failure? f e = none ↔ ∃ v, f e = .ok v := by
  unfold failure?
  split <;> simp_all

/-- To traverse what a function made of the leaves is to apply that function first. -/
theorem traverse_map {ψ : Type} (f : φ → Except Error ψ) (g : ε → φ) (tree : ArgTree ε) :
    (tree.map g).traverse f = tree.traverse fun e => f (g e) := by
  induction tree with
  | omitted => rfl
  | leaf e => rfl
  | group level slots ih =>
    have hslots : traverseSlots f (mapSlots g slots) = traverseSlots (fun e => f (g e)) slots := by
      induction slots with
      | nil => rfl
      | cons slot others ihslots =>
        rw [mapSlots, traverseSlots, traverseSlots, ih slot (by simp),
          ihslots fun slot hslot => ih slot (by simp [hslot])]
    rw [map, traverse, traverse, hslots]

theorem traverse_congr {f g : ε → Except Error φ} {tree : ArgTree ε}
    (h : ∀ e ∈ tree.expressions, f e = g e) : tree.traverse f = tree.traverse g := by
  induction tree with
  | omitted => rfl
  | leaf e => rw [traverse, traverse, h e (by simp)]
  | group level slots ih =>
    rw [expressions_group] at h
    have hslots : traverseSlots f slots = traverseSlots g slots := by
      induction slots with
      | nil => rfl
      | cons slot others ihslots =>
        rw [List.flatMap_cons, List.forall_mem_append] at h
        rw [traverseSlots, traverseSlots, ih slot (by simp) h.1,
          ihslots (fun slot hslot => ih slot (by simp [hslot])) h.2]
    rw [traverse, traverse, hslots]

/-- A traversal that succeeds at every leaf only replaces the expressions. -/
theorem traverse_eq_ok_map {f : ε → Except Error φ} {g : ε → φ} {tree : ArgTree ε}
    (h : ∀ e ∈ tree.expressions, f e = .ok (g e)) : traverse f tree = .ok (tree.map g) := by
  induction tree with
  | omitted => rfl
  | leaf e =>
    rw [traverse, h e (by simp)]
    rfl
  | group level slots ih =>
    have hslots : slots.mapM (traverse f) = .ok (slots.map (map g)) := by
      induction slots with
      | nil => rfl
      | cons slot others ihslots =>
        simp only [expressions_group, List.flatMap_cons, List.mem_append] at h
        have hslot := ih slot (by simp) fun e he => h e (.inl he)
        have hothers := ihslots (fun slot hslot => ih slot (by simp [hslot]))
          (fun e he => h e (.inr (by simpa using he)))
        rw [List.mapM_cons, hslot, hothers]
        rfl
    rw [traverse, traverseSlots_eq_mapM, hslots, map, mapSlots_eq_map]
    rfl

/-- **The first failure wins**: a traversal fails with the error of the first leaf that fails. -/
theorem traverse_eq_error_iff {f : ε → Except Error φ} {tree : ArgTree ε} {error : Error} :
    traverse f tree = .error error ↔ tree.expressions.findSome? (failure? f) = some error := by
  induction tree generalizing error with
  | omitted => simp [traverse]
  | leaf e =>
    rw [traverse, expressions_leaf, List.findSome?_singleton, failure?_eq_some_iff]
    cases f e <;> simp [Except.map]
  | group level slots ih =>
    have hslots : slots.mapM (traverse f) = .error error ↔
        (slots.flatMap expressions).findSome? (failure? f) = some error := by
      induction slots with
      | nil => simp [pure, Except.pure]
      | cons slot others ihslots =>
        have hothers := ihslots fun slot hslot => ih slot (by simp [hslot])
        rw [List.mapM_cons, List.flatMap_cons, List.findSome?_append]
        cases hslot : traverse f slot with
        | error error' =>
          have hfirst := (ih slot (by simp)).1 hslot
          simp [hfirst, bind, Except.bind]
        | ok slot' =>
          have hfirst : slot.expressions.findSome? (failure? f) = none := by
            cases hfind : slot.expressions.findSome? (failure? f) with
            | none => rfl
            | some error' =>
              have herror := (ih slot (by simp)).2 hfind
              rw [hslot] at herror
              cases herror
          rw [hfirst, Option.none_or, ← hothers]
          cases others.mapM (traverse f) <;> simp [bind, Except.bind, pure, Except.pure]
    rw [traverse, traverseSlots_eq_mapM, expressions_group, ← hslots]
    cases slots.mapM (traverse f) <;> simp [Except.map]

/-- Where a traversal succeeds, it succeeds at every leaf. -/
theorem exists_of_traverse_eq_ok {f : ε → Except Error φ} {tree : ArgTree ε} {tree' : ArgTree φ}
    (h : traverse f tree = .ok tree') {e : ε} (he : e ∈ tree.expressions) : ∃ v, f e = .ok v := by
  rw [← failure?_eq_none_iff]
  have hnone : tree.expressions.findSome? (failure? f) = none := by
    cases hfind : tree.expressions.findSome? (failure? f) with
    | none => rfl
    | some error =>
      rw [traverse_eq_error_iff.2 hfind] at h
      cases h
  exact List.findSome?_eq_none_iff.1 hnone e he

/-- A function that succeeds at every leaf has a traversal that succeeds. -/
theorem exists_traverse_eq_ok {f : ε → Except Error φ} {tree : ArgTree ε}
    (h : ∀ e ∈ tree.expressions, ∃ v, f e = .ok v) : ∃ tree', traverse f tree = .ok tree' := by
  cases htree : traverse f tree with
  | ok tree' => exact ⟨tree', rfl⟩
  | error error =>
    obtain ⟨e, he, herror⟩ := List.exists_of_findSome?_eq_some (traverse_eq_error_iff.1 htree)
    rw [failure?_eq_none_iff.2 (h e he)] at herror
    cases herror

theorem traverse_leaf_eq_ok_iff {f : ε → Except Error φ} {e : ε} {tree' : ArgTree φ} :
    traverse f (leaf e) = .ok tree' ↔ ∃ v, f e = .ok v ∧ tree' = leaf v := by
  rw [traverse]
  cases f e <;> simp [Except.map, eq_comm]

theorem traverse_group_eq_ok_iff {f : ε → Except Error φ} {level : Level}
    {slots : List (ArgTree ε)} {tree' : ArgTree φ} :
    traverse f (group level slots) = .ok tree' ↔
      ∃ slots', traverseSlots f slots = .ok slots' ∧ tree' = group level slots' := by
  rw [traverse]
  cases traverseSlots f slots <;> simp [Except.map, eq_comm]

theorem traverseSlots_cons_eq_ok_iff {f : ε → Except Error φ} {slot : ArgTree ε}
    {others : List (ArgTree ε)} {slots' : List (ArgTree φ)} :
    traverseSlots f (slot :: others) = .ok slots' ↔
      ∃ slot' others', traverse f slot = .ok slot' ∧ traverseSlots f others = .ok others' ∧
        slots' = slot' :: others' := by
  rw [traverseSlots]
  cases traverse f slot <;> cases traverseSlots f others <;>
    simp [bind, Except.bind, pure, Except.pure, eq_comm]

/-- Where one function answers what another does up to a **last step**, so do their traversals. -/
theorem traverse_eq_ok_iff {f g : ε → Except Error φ} {finish : φ → φ}
    (h : ∀ e v, f e = .ok v ↔ ∃ r, g e = .ok r ∧ v = finish r) {tree : ArgTree ε}
    {tree' : ArgTree φ} :
    traverse f tree = .ok tree' ↔
      ∃ plain, traverse g tree = .ok plain ∧ tree' = plain.map finish := by
  induction tree generalizing tree' with
  | omitted =>
    constructor
    · intro htree
      cases htree
      exact ⟨.omitted, rfl, rfl⟩
    · rintro ⟨plain, hplain, rfl⟩
      cases hplain
      rfl
  | leaf e =>
    constructor
    · intro htree
      obtain ⟨v, hv, rfl⟩ := traverse_leaf_eq_ok_iff.1 htree
      obtain ⟨r, hr, rfl⟩ := (h e v).1 hv
      exact ⟨leaf r, traverse_leaf_eq_ok_iff.2 ⟨r, hr, rfl⟩, rfl⟩
    · rintro ⟨plain, hplain, rfl⟩
      obtain ⟨r, hr, rfl⟩ := traverse_leaf_eq_ok_iff.1 hplain
      exact traverse_leaf_eq_ok_iff.2 ⟨finish r, (h e _).2 ⟨r, hr, rfl⟩, rfl⟩
  | group level slots ih =>
    have hslots : ∀ slots', traverseSlots f slots = .ok slots' ↔
        ∃ plain, traverseSlots g slots = .ok plain ∧ slots' = mapSlots finish plain := by
      induction slots with
      | nil => simp [traverseSlots, mapSlots, eq_comm]
      | cons slot others ihothers =>
        have hslot : ∀ slot', traverse f slot = .ok slot' ↔
            ∃ plain, traverse g slot = .ok plain ∧ slot' = plain.map finish :=
          fun _ => ih slot (by simp)
        have hothers := ihothers fun slot hslot => ih slot (by simp [hslot])
        intro slots'
        constructor
        · intro hf
          obtain ⟨slot', others', hslot', hothers', rfl⟩ := traverseSlots_cons_eq_ok_iff.1 hf
          obtain ⟨plain, hplain, rfl⟩ := (hslot slot').1 hslot'
          obtain ⟨plains, hplains, rfl⟩ := (hothers others').1 hothers'
          exact ⟨plain :: plains,
            traverseSlots_cons_eq_ok_iff.2 ⟨plain, plains, hplain, hplains, rfl⟩, rfl⟩
        · rintro ⟨_, hg, rfl⟩
          obtain ⟨plain, plains, hplain, hplains, rfl⟩ := traverseSlots_cons_eq_ok_iff.1 hg
          exact traverseSlots_cons_eq_ok_iff.2
            ⟨_, _, (hslot _).2 ⟨plain, hplain, rfl⟩, (hothers _).2 ⟨plains, hplains, rfl⟩, rfl⟩
    constructor
    · intro htree
      obtain ⟨slots', hslots', rfl⟩ := traverse_group_eq_ok_iff.1 htree
      obtain ⟨plain, hplain, rfl⟩ := (hslots slots').1 hslots'
      exact ⟨group level plain, traverse_group_eq_ok_iff.2 ⟨plain, hplain, rfl⟩, rfl⟩
    · rintro ⟨_, hg, rfl⟩
      obtain ⟨plain, hplain, rfl⟩ := traverse_group_eq_ok_iff.1 hg
      exact traverse_group_eq_ok_iff.2 ⟨_, (hslots _).2 ⟨plain, hplain, rfl⟩, rfl⟩

/-- A traversal keeps the shape of the tree. -/
theorem shape_traverse {f : ε → Except Error φ} {tree : ArgTree ε} {tree' : ArgTree φ}
    (h : traverse f tree = .ok tree') : tree'.shape = tree.shape := by
  induction tree generalizing tree' with
  | omitted =>
    cases h
    rfl
  | leaf e =>
    rw [traverse] at h
    cases he : f e with
    | error => rw [he] at h; cases h
    | ok v => rw [he] at h; cases h; rfl
  | group level slots ih =>
    rw [traverse, traverseSlots_eq_mapM] at h
    cases hslots : slots.mapM (traverse f) with
    | error => rw [hslots] at h; cases h
    | ok slots' =>
      rw [hslots] at h
      cases h
      simp only [shape, map, mapSlots_eq_map, group.injEq, true_and]
      induction slots generalizing slots' with
      | nil =>
        cases hslots
        rfl
      | cons slot others ihslots =>
        rw [List.mapM_cons] at hslots
        cases hslot : traverse f slot with
        | error => rw [hslot] at hslots; cases hslots
        | ok slot' =>
          cases hothers : others.mapM (traverse f) with
          | error => rw [hslot, hothers] at hslots; cases hslots
          | ok others' =>
            rw [hslot, hothers] at hslots
            cases hslots
            have hfirst : slot'.map (fun _ => ()) = slot.map fun _ => () :=
              ih slot (by simp) hslot
            rw [List.map_cons, List.map_cons, hfirst,
              ihslots (fun slot hslot => ih slot (by simp [hslot])) others' hothers]

end GridFormula.ArgTree
