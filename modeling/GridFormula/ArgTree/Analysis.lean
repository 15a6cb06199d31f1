import GridFormula.ArgTree.Leaves
import GridFormula.Leaf

/-!
# Trees of leaves

What the operations of leaves make of a whole tree. Dependencies are collected from left to right.
Optimizing visits every leaf, also behind one that is not constant, and tells whether the whole
tree has become constant; an omitted argument counts as constant.

## Main definitions

* `ArgTree.containsParam`, `ArgTree.usedParams`, `ArgTree.usedFields`, `ArgTree.usedCells`.
* `ArgTree.optimize`: the tree with every leaf folded, and whether all leaves are constant.

## Main results

* `ArgTree.optimize_fst`, `ArgTree.optimize_snd`: the tree and the answer, leaf by leaf.
-/

namespace GridFormula.ArgTree

variable {ε κ α : Type}

/-! ### Collecting -/

mutual

/-- What the leaves add to `held`, one after the other from left to right. -/
def collect (add : ε → α → α) : ArgTree ε → α → α
  | .omitted, held => held
  | .leaf e, held => add e held
  | .group _ slots, held => collectSlots add slots held

/-- What the leaves of a row of slots add to `held`. -/
def collectSlots (add : ε → α → α) : List (ArgTree ε) → α → α
  | [], held => held
  | slot :: others, held => collectSlots add others (collect add slot held)

end

mutual

/-- Collecting over a tree is collecting over its leaves in order. -/
theorem collect_eq_foldl (add : ε → α → α) :
    (tree : ArgTree ε) → (held : α) →
      collect add tree held = (leaves tree).foldl (fun held e => e.elim held (add · held)) held
  | .omitted, held => by simp [collect, leaves]
  | .leaf e, held => by simp [collect, leaves]
  | .group _ slots, held => by
    simp only [collect, leaves]
    exact collectSlots_eq_foldl add slots held

theorem collectSlots_eq_foldl (add : ε → α → α) :
    (slots : List (ArgTree ε)) → (held : α) →
      collectSlots add slots held =
        (slotsLeaves slots).foldl (fun held e => e.elim held (add · held)) held
  | [], held => by simp [collectSlots, slotsLeaves]
  | slot :: others, held => by
    rw [collectSlots, slotsLeaves, List.foldl_append, ← collect_eq_foldl add slot,
      collectSlots_eq_foldl add others]

end

/-! ### Dependencies -/

variable [Leaf ε κ]

/-- Whether a bare name occurs in the tree. -/
def containsParam (name : String) (tree : ArgTree ε) : Bool :=
  tree.leaves.any fun entry => entry.any (Leaf.containsParam name)

/-- The **parameters** of the tree, added to those held. -/
def usedParams (context : Context) (tree : ArgTree ε) (held : List String) : List String :=
  tree.collect (Leaf.usedParams context) held

/-- The **fields** of the tree, added to those held. -/
def usedFields (context : Context) (tree : ArgTree ε) (held : List String) : List String :=
  tree.collect (Leaf.usedFields context) held

/-- The **cells** of the tree, added to those held. -/
def usedCells (tree : ArgTree ε) (held : List κ) : List κ :=
  tree.collect Leaf.usedCells held

/-! ### Optimizing -/

/-- A leaf with its constants folded, and whether it is constant. One whose folding was stopped is
not. -/
def optimizeLeaf (e : ε) : ε × Bool :=
  match Leaf.optimize e with
  | (e, none) => (e, Leaf.isConstant e)
  | (e, some _) => (e, false)

mutual

/-- The tree with every leaf **folded**, and whether all of them are constant. -/
def optimize : ArgTree ε → ArgTree ε × Bool
  | .omitted => (.omitted, true)
  | .leaf e =>
    let (e, constant) := optimizeLeaf e
    (.leaf e, constant)
  | .group level slots =>
    let (slots, constant) := optimizeSlots slots
    (.group level slots, constant)

/-- The slots with every leaf folded, and whether all of them are constant. -/
def optimizeSlots : List (ArgTree ε) → List (ArgTree ε) × Bool
  | [] => ([], true)
  | slot :: others =>
    let (slot, constant) := optimize slot
    let (others, allConstant) := optimizeSlots others
    (slot :: others, constant && allConstant)

end

theorem optimizeLeaf_fst (e : ε) : (optimizeLeaf e).1 = (Leaf.optimize e).1 := by
  unfold optimizeLeaf
  split <;> next heq => rw [heq]

/-- Optimizing a tree is **folding at its leaves**. -/
theorem optimize_fst (tree : ArgTree ε) :
    tree.optimize.1 = tree.map fun e => (Leaf.optimize e).1 :=
  eq_map (fun slots => (optimizeSlots slots).1) rfl
    (fun e => congrArg leaf (optimizeLeaf_fst e)) (fun _ _ => rfl) rfl (fun _ _ => rfl) tree

/-- The answer for a tree is the **answer for all its leaves**. -/
theorem optimize_snd (tree : ArgTree ε) :
    tree.optimize.2 = tree.expressions.all fun e => (optimizeLeaf e).2 := by
  induction tree with
  | omitted => rfl
  | leaf e => simp [optimize]
  | group level slots ih =>
    rw [optimize, expressions_group, List.all_flatMap]
    induction slots with
    | nil => rfl
    | cons slot others ihothers =>
      rw [optimizeSlots, List.all_cons, ← ih slot (by simp),
        ← ihothers fun slot hslot => ih slot (by simp [hslot])]

end GridFormula.ArgTree
