import GridFormula.ArgTree.Basic
import GridFormula.Grid
import GridFormula.Operator
import GridFormula.Value

/-!
# Expressions

The expressions of formulas. Grouping is part of an expression: parentheses are kept as a node, so
an expression is written out as it was read.

## Main definitions

* `Expr`: the expressions.
* `Expr.constant?`: the value of an expression that is a literal.
-/

namespace GridFormula

/-- An **expression** of the formula language. -/
inductive Expr where
  /-- A constant. -/
  | literal (value : Value)
  /-- A bare name: a parameter where the context binds it, and a field otherwise. -/
  | name (name : String)
  /-- A field name between apostrophes. -/
  | field (name : String)
  /-- The current row. -/
  | currentRow
  /-- A cell of the grid. -/
  | cell (cell : Cell)
  /-- A row of expressions between square brackets. -/
  | sequence (items : List Expr)
  /-- An expression between parentheses. -/
  | paren (inner : Expr)
  /-- A call of a function. -/
  | call (function : String) (arguments : ArgTree Expr)
  /-- A member of what the target stands for. -/
  | member (target : Expr) (name : String)
  /-- A call of a member of what the target stands for. -/
  | memberCall (target : Expr) (name : String) (arguments : ArgTree Expr)
  /-- An operator before its operand. -/
  | unary (op : UnaryOp) (operand : Expr)
  /-- An operator between its operands. -/
  | binary (op : BinaryOp) (left right : Expr)

namespace Expr

/-- The value of an expression that is a literal. -/
def constant? : Expr → Option Value
  | .literal value => some value
  | _ => none

/-- Whether the expression is a literal. -/
def isConstant (e : Expr) : Bool := e.constant?.isSome

end Expr

end GridFormula
