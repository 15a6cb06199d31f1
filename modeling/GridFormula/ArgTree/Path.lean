import GridFormula.ArgTree.Leaves

/-!
# Paths

A place in a tree is named by the indexes of the slots on the way to it.

## Main definitions

* `ArgTree.descend`: the tree at a place.
* `ArgTree.modifyAt?`: the tree with another one at a place.

## Main results

* `ArgTree.descend_map`: what stands at a place of a mapped tree.
-/

namespace GridFormula.ArgTree

variable {ε φ : Type}

/-- The tree at a place. The first index that leads nowhere is at fault. -/
def descend (tree : ArgTree ε) (path : List Nat) : Except IndexFault (ArgTree ε) :=
  path.foldlM child tree

/-- The tree with the part at `path` replaced by what `f` makes of it, and what `f` answers
besides. There is no answer when the path leads nowhere or to an omitted slot. -/
def modifyAt? {α : Type} (f : ArgTree ε → ArgTree ε × α) :
    List Nat → ArgTree ε → Option (ArgTree ε × α)
  | _, .omitted => none
  | [], tree => some (f tree)
  | _ :: _, .leaf _ => none
  | index :: path, .group level slots => do
    let slot ← slots[index]?
    let (changed, answer) ← modifyAt? f path slot
    pure (.group level (slots.set index changed), answer)

/-! ### Mapped trees -/

theorem descend_cons (tree : ArgTree ε) (index : Nat) (path : List Nat) :
    tree.descend (index :: path) = tree.child index >>= (·.descend path) := rfl

theorem child_map (f : ε → φ) (tree : ArgTree ε) (index : Nat) :
    (tree.map f).child index = (tree.child index).map (map f) := by
  cases tree with
  | omitted => rfl
  | leaf e => rfl
  | group level slots =>
    rw [map, mapSlots_eq_map, child, child, List.getElem?_map]
    cases slots[index]? <;> rfl

/-- At a **place of a mapped tree** stands what is mapped from the tree there. -/
theorem descend_map (f : ε → φ) (tree : ArgTree ε) (path : List Nat) :
    (tree.map f).descend path = (tree.descend path).map (map f) := by
  induction path generalizing tree with
  | nil => rfl
  | cons index path ih =>
    rw [descend_cons, descend_cons, child_map]
    cases tree.child index with
    | error fault => rfl
    | ok slot => exact ih slot

end GridFormula.ArgTree
