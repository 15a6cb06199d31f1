import GridFormula.ArgTree.Basic

/-!
# Slices of a group

Functions read some of their arguments by taking a range of slots as a tree of its own. A range
of exactly one slot is that slot; any other range is a new group of the same level, which may be
empty. A leaf counts as its own first slot.

## Main definitions

* `ArgTree.Slice`: a tree and whether it is a new group.
* `ArgTree.slice`: the slots of a range.
-/

namespace GridFormula.ArgTree

variable {ε : Type}

/-- A tree taken out of another. -/
structure Slice (ε : Type) where
  /-- The tree. -/
  tree : ArgTree ε
  /-- Whether the tree is a new group, and not a part of the tree it was taken from. -/
  isNew : Bool

/-- The **slice** of a tree from slot `start` up to, but not including, slot `stop`. There is none
when the range is reversed or goes beyond the slots, or when its only slot is omitted. -/
def slice (tree : ArgTree ε) (start stop : Nat) : Option (Slice ε) :=
  match tree with
  | .omitted => none
  | .leaf e => if start = 0 then some ⟨.leaf e, false⟩ else none
  | .group level slots =>
    if stop < start || slots.length < stop then none
    else
      match (slots.drop start).take (stop - start) with
      | [.omitted] => none
      | [only] => some ⟨only, false⟩
      | range => some ⟨.group level range, true⟩

/-- The slice as a tree; an absent slice is an omitted argument. -/
def sliceTree (tree : ArgTree ε) (start stop : Nat) : ArgTree ε :=
  match tree.slice start stop with
  | some taken => taken.tree
  | none => .omitted

end GridFormula.ArgTree
