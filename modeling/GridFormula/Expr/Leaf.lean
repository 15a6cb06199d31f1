import GridFormula.ArgTree.Analysis
import GridFormula.Expr.Compile
import GridFormula.Expr.Equality
import GridFormula.Expr.Nodes
import GridFormula.Expr.Print
import GridFormula.Leaf

/-!
# Expressions as leaves

Expressions have the operations that an argument tree asks of its leaves.
-/

namespace GridFormula.Expr

/-- The expression with its constants folded, and what stopped the folding, if anything. -/
def optimize (e : Expr) : Expr × Option Error :=
  (e.fold.1, e.fold.2.map .evaluation)

instance : Leaf Expr Cell where
  compile := compileAt
  text := text
  equals := equals
  optimize := optimize
  isConstant := isConstant
  containsParam := containsParam
  usedParams := usedParams
  usedFields := usedFields
  usedCells := usedCells

mutual

/-- The arguments of a call are folded as any tree of expressions is optimized. -/
theorem foldArguments_eq : (tree : ArgTree Expr) → foldArguments tree = tree.optimize.1
  | .omitted => by simp [foldArguments, ArgTree.optimize]
  | .leaf e => by
    have h : (ArgTree.optimizeLeaf e).1 = (fold e).1 := ArgTree.optimizeLeaf_fst e
    simp [foldArguments, ArgTree.optimize, h]
  | .group level slots => by
    simp only [foldArguments, ArgTree.optimize]
    rw [foldSlots_eq slots]

theorem foldSlots_eq :
    (slots : List (ArgTree Expr)) → foldSlots slots = (ArgTree.optimizeSlots slots).1
  | [] => by simp [foldSlots, ArgTree.optimizeSlots]
  | slot :: others => by
    simp only [foldSlots, ArgTree.optimizeSlots]
    rw [foldArguments_eq slot, foldSlots_eq others]

end

end GridFormula.Expr
