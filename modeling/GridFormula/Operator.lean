/-!
# Operators

The operators of formulas, their symbols, and how tightly they bind.

## Main definitions

* `UnaryOp`, `BinaryOp`: the operators.
* `UnaryOp.symbol`, `BinaryOp.symbol`: how they are written.
* `BinaryOp.precedence`: a higher number binds more tightly.
-/

namespace GridFormula

/-- The operators with one operand. -/
inductive UnaryOp where
  /-- The opposite number. -/
  | negate
  /-- The opposite truth value. -/
  | not
deriving DecidableEq

/-- The operators with two operands. -/
inductive BinaryOp where
  /-- Sum of numbers. -/
  | add
  /-- Difference of numbers. -/
  | subtract
  /-- Product of numbers. -/
  | multiply
  /-- Quotient of numbers. -/
  | divide
  /-- Remainder of numbers. -/
  | modulo
  /-- One text after the other. -/
  | concat
  /-- Equality of any two values. -/
  | equal
  /-- Inequality of any two values. -/
  | notEqual
  /-- Before, in the order of numbers, texts or truth values. -/
  | less
  /-- Before or equal. -/
  | lessEqual
  /-- After. -/
  | greater
  /-- After or equal. -/
  | greaterEqual
  /-- Both truth values. -/
  | and
  /-- At least one of two truth values. -/
  | or
deriving DecidableEq

/-- How a unary operator is written. -/
def UnaryOp.symbol : UnaryOp → String
  | .negate => "-"
  | .not => "!"

namespace BinaryOp

/-- How a binary operator is written. -/
def symbol : BinaryOp → String
  | .add => "+"
  | .subtract => "-"
  | .multiply => "*"
  | .divide => "/"
  | .modulo => "%"
  | .concat => "&"
  | .equal => "=="
  | .notEqual => "!="
  | .less => "<"
  | .lessEqual => "<="
  | .greater => ">"
  | .greaterEqual => ">="
  | .and => "&&"
  | .or => "||"

/-- How tightly a binary operator binds: `||` least, then `&&`, comparisons, `&`, sums, and
products most. All operators of one precedence group to the left. -/
def precedence : BinaryOp → Nat
  | .or => 1
  | .and => 2
  | .equal | .notEqual | .less | .lessEqual | .greater | .greaterEqual => 3
  | .concat => 4
  | .add | .subtract => 5
  | .multiply | .divide | .modulo => 6

/-- The precedences, from the tightest to the loosest. -/
def precedences : List Nat := [6, 5, 4, 3, 2, 1]

theorem precedence_mem_precedences (op : BinaryOp) : op.precedence ∈ precedences := by
  cases op <;> decide

end BinaryOp

end GridFormula
