import GridFormula.Expr.Basic

/-!
# Equality of expressions

Two expressions are equal when they have the same shape and equal constants. Constants are compared
by value, so an expression that holds a number without value differs from itself.

## Main definitions

* `Expr.equals`: equality of expressions.
* `Expr.argumentsEqual`: equality of argument trees.
-/

namespace GridFormula.Expr

mutual

/-- The **equality** of expressions. -/
def equals : Expr → Expr → Bool
  | .literal v, .literal w => v.equals w
  | .name m, .name n => m == n
  | .field m, .field n => m == n
  | .currentRow, .currentRow => true
  | .cell c, .cell d => c = d
  | .sequence xs, .sequence ys => itemsEqual xs ys
  | .paren x, .paren y => equals x y
  | .call f xs, .call g ys => f == g && argumentsEqual xs ys
  | .member x m, .member y n => equals x y && m == n
  | .memberCall x m xs, .memberCall y n ys => equals x y && m == n && argumentsEqual xs ys
  | .unary op x, .unary other y => op = other && equals x y
  | .binary op l r, .binary other k s => op = other && equals l k && equals r s
  | _, _ => false
termination_by structural x => x

/-- Equality of rows of expressions. -/
def itemsEqual : List Expr → List Expr → Bool
  | [], [] => true
  | x :: xs, y :: ys => equals x y && itemsEqual xs ys
  | _, _ => false
termination_by structural x => x

/-- Equality of argument trees. -/
def argumentsEqual : ArgTree Expr → ArgTree Expr → Bool
  | .omitted, .omitted => true
  | .leaf x, .leaf y => equals x y
  | .group k xs, .group l ys => k = l && slotsEqual xs ys
  | _, _ => false
termination_by structural x => x

/-- Equality of rows of argument slots. -/
def slotsEqual : List (ArgTree Expr) → List (ArgTree Expr) → Bool
  | [], [] => true
  | x :: xs, y :: ys => argumentsEqual x y && slotsEqual xs ys
  | _, _ => false
termination_by structural x => x

end

end GridFormula.Expr
