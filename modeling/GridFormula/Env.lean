import GridFormula.Context
import GridFormula.Grid

/-!
# Environments and options

Where a formula stands, and how it is read.

## Main definitions

* `Env`: the grid and the context of a formula.
* `Options`: whether templates are expanded, and whether constants are folded.
-/

namespace GridFormula

/-- The **environment** of a formula. -/
structure Env where
  /-- The grid whose cells it can name. -/
  grid : Grid
  /-- The parameters it can name. -/
  context : Context

/-- How a formula is read. -/
structure Options where
  /-- Whether templates are replaced by the values of parameters first. -/
  expandTemplates : Bool := false
  /-- Whether constants are folded as soon as an expression is read. -/
  optimize : Bool := true
deriving DecidableEq

end GridFormula
