/-!
# Intervals of code points

A class of characters is written down as a list of closed intervals of code points.

## Main definitions

* `inRanges`: membership of a character in such a list.
-/

namespace GridFormula.Text

/-- Whether the code point of `c` lies in one of the closed intervals `ranges`. -/
def inRanges (ranges : List (Nat × Nat)) (c : Char) : Bool :=
  ranges.any fun (first, last) => first ≤ c.toNat && c.toNat ≤ last

end GridFormula.Text
