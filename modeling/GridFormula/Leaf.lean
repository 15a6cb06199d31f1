import GridFormula.Env
import GridFormula.Error

/-!
# Leaves

What an argument tree asks of the expressions at its leaves. The tree does nothing else with them,
so any type with these operations can take their place.

## Main definitions

* `Leaf`: the operations.
-/

namespace GridFormula

/-- The **operations of leaves**: `ε` is the type of expressions and `κ` that of the cells they can
refer to. -/
class Leaf (ε : Type) (κ : outParam Type) where
  /-- Reads the text of one leaf, which stands so many calls deep inside another. -/
  compile : Env → Options → Nat → List Char → Except Error ε
  /-- The written form. -/
  text : ε → List Char
  /-- Equality. -/
  equals : ε → ε → Bool
  /-- The expression with its constants folded, and what stopped the folding, if anything. -/
  optimize : ε → ε × Option Error
  /-- Whether the expression is a literal. -/
  isConstant : ε → Bool
  /-- Whether a bare name occurs. -/
  containsParam : String → ε → Bool
  /-- The parameters of the expression, added to a list. -/
  usedParams : Context → ε → List String → List String
  /-- The fields of the expression, added to a list. -/
  usedFields : Context → ε → List String → List String
  /-- The cells of the expression, added to a list. -/
  usedCells : ε → List κ → List κ

end GridFormula
