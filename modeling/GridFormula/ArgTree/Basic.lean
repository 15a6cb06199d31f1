import GridFormula.Error
import GridFormula.Level

/-!
# Argument trees

The arguments of a call form a tree. A leaf holds one expression; a group holds the slots that one
separator sets apart, at least two in every tree that is read from a text. An argument that was
left out stays in the tree as an omitted slot, so that positions are kept.

The tree does not depend on what an expression is.

## Main definitions

* `ArgTree`: the trees.
* `ArgTree.slots`, `ArgTree.child`: the slots of a group, and one of them.
* `ArgTree.text`: the tree written out with its separators.
* `ArgTree.equals`: equality of trees over an equality of expressions.
-/

namespace GridFormula

/-- An **argument tree** with expressions of type `ε` at its leaves. -/
inductive ArgTree (ε : Type) where
  /-- An argument that was left out. -/
  | omitted
  /-- A single expression. -/
  | leaf (expression : ε)
  /-- Arguments that the separator of `level` sets apart. -/
  | group (level : Level) (slots : List (ArgTree ε))

namespace ArgTree

variable {ε : Type}

/-- **Induction over trees**: a property of groups follows from the same property of all their
slots. -/
@[elab_as_elim, induction_eliminator]
theorem induct {motive : ArgTree ε → Prop} (omitted : motive .omitted)
    (leaf : ∀ e, motive (.leaf e))
    (group : ∀ level slots, (∀ slot ∈ slots, motive slot) → motive (.group level slots)) :
    ∀ tree, motive tree
  | .omitted => omitted
  | .leaf e => leaf e
  | .group level slots => group level slots fun slot _ => induct omitted leaf group slot

/-! ### Shape -/

/-- Whether the tree is a single expression. -/
def isLeaf : ArgTree ε → Bool
  | .leaf _ => true
  | _ => false

/-- Whether the argument was left out. -/
def isOmitted : ArgTree ε → Bool
  | .omitted => true
  | _ => false

/-- The level of a group. -/
def level? : ArgTree ε → Option Level
  | .group level _ => some level
  | _ => none

/-- The word for the shape of a tree: the separator of a group, or `normal`. -/
def shapeName (tree : ArgTree ε) : String :=
  match tree.level? with
  | some level => level.groupName
  | none => "normal"

/-- The slots of a group; nothing else has any. -/
def slots : ArgTree ε → List (ArgTree ε)
  | .group _ slots => slots
  | _ => []

/-- The number of slots. -/
def size (tree : ArgTree ε) : Nat := tree.slots.length

/-! ### Slots by index -/

/-- Why a tree has no slot at an index. -/
inductive IndexFault where
  /-- A leaf has no slots. -/
  | onLeaf (index : Nat)
  /-- The group has fewer slots. -/
  | outOfRange (index : Nat)
deriving DecidableEq

/-- The wording for an index below a leaf. An index beyond the slots of a group needs none. -/
def IndexFault.message? : IndexFault → Option String
  | .onLeaf index => some ("leaf parameter has no sub-parameter " ++ toString index)
  | .outOfRange _ => none

/-- The slot at an index. Below an omitted argument everything is omitted. -/
def child (tree : ArgTree ε) (index : Nat) : Except IndexFault (ArgTree ε) :=
  match tree with
  | .omitted => .ok .omitted
  | .leaf _ => .error (.onLeaf index)
  | .group _ slots =>
    match slots[index]? with
    | some slot => .ok slot
    | none => .error (.outOfRange index)

/-- The expression of a leaf. -/
def expression : ArgTree ε → Except Error ε
  | .leaf e => .ok e
  | _ => .error (.invalidParameter none)

/-! ### Written form -/

mutual

/-- The tree **written out**: expressions by `render`, slots with their separators between. -/
def text (render : ε → List Char) : ArgTree ε → List Char
  | .omitted => []
  | .leaf e => render e
  | .group level slots => slotsText render level.separator?.toList slots

/-- Slots written out with `separator` between them. -/
def slotsText (render : ε → List Char) (separator : List Char) : List (ArgTree ε) → List Char
  | [] => []
  | [slot] => slot.text render
  | slot :: others => slot.text render ++ (separator ++ slotsText render separator others)

end

/-! ### Equality -/

mutual

/-- Equality of trees, with expressions compared by `same`. -/
def equals (same : ε → ε → Bool) : ArgTree ε → ArgTree ε → Bool
  | .omitted, .omitted => true
  | .leaf d, .leaf e => same d e
  | .group k slots, .group l others => k = l && slotsEqual same slots others
  | _, _ => false
termination_by structural x => x

/-- Equality of rows of slots. -/
def slotsEqual (same : ε → ε → Bool) : List (ArgTree ε) → List (ArgTree ε) → Bool
  | [], [] => true
  | slot :: slots, other :: others => equals same slot other && slotsEqual same slots others
  | _, _ => false
termination_by structural x => x

end

end ArgTree

end GridFormula
