import GridFormula.Error
import GridFormula.Operator
import GridFormula.Value

/-!
# Operators on values

What operators make of constants. Arithmetic takes numbers, logic takes truth values, and an
ordering takes two numbers, two texts or two truth values; any two values can be joined as texts
or compared for equality.

## Main definitions

* `Value.compare?`: the order of two values that have one.
* `UnaryOp.apply`, `BinaryOp.apply`: the operators.
-/

namespace GridFormula

/-- The order of two values of one ordered kind. Texts are ordered by the code points of their
characters, and `false` comes before `true`. -/
def Value.compare? : Value → Value → Option Ordering
  | .number x, .number y => x.compare? y
  | .text s, .text t => some (compareOfLessAndEq s t)
  | .bool a, .bool b => some (compare a b)
  | _, _ => none

/-- What a unary operator makes of a constant. -/
def UnaryOp.apply (op : UnaryOp) (value : Value) : Except EvalError Value :=
  match op, value with
  | .negate, .number n => .ok (.number n.neg)
  | .not, .bool b => .ok (.bool !b)
  | op, value => .error (.kindMismatch op.symbol [value.kind])

namespace BinaryOp

/-- The failure of an operator that does not take operands of these kinds. -/
def mismatch (op : BinaryOp) (left right : Value) : EvalError :=
  .kindMismatch op.symbol [left.kind, right.kind]

/-- What an operator on numbers makes of two values. -/
def applyNumeric (op : BinaryOp) (calculate : Number → Number → Except EvalError Number)
    (left right : Value) : Except EvalError Value :=
  match left, right with
  | .number x, .number y => (calculate x y).map .number
  | left, right => .error (op.mismatch left right)

/-- What an ordering makes of two values: whether their order is among those it accepts. -/
def applyOrdering (op : BinaryOp) (accepts : Ordering → Bool) (left right : Value) :
    Except EvalError Value :=
  match left.compare? right with
  | some order => .ok (.bool (accepts order))
  | none => .error (op.mismatch left right)

/-- What an operator on truth values makes of two values. -/
def applyLogical (op : BinaryOp) (combine : Bool → Bool → Bool) (left right : Value) :
    Except EvalError Value :=
  match left, right with
  | .bool a, .bool b => .ok (.bool (combine a b))
  | left, right => .error (op.mismatch left right)

/-- A division by `y`, which must not be zero. -/
def nonZero (calculate : Number → Number → Number) (x y : Number) : Except EvalError Number :=
  if y.isZero then .error .divisionByZero else .ok (calculate x y)

/-- What a binary operator makes of two constants. -/
def apply (op : BinaryOp) (left right : Value) : Except EvalError Value :=
  match op with
  | .add => op.applyNumeric (fun x y => .ok (x.add y)) left right
  | .subtract => op.applyNumeric (fun x y => .ok (x.sub y)) left right
  | .multiply => op.applyNumeric (fun x y => .ok (x.mul y)) left right
  | .divide => op.applyNumeric (nonZero Number.div) left right
  | .modulo => op.applyNumeric (nonZero Number.rem) left right
  | .concat => .ok (.text (String.ofList (left.display ++ right.display)))
  | .equal => .ok (.bool (left.equals right))
  | .notEqual => .ok (.bool !(left.equals right))
  | .less => op.applyOrdering Ordering.isLT left right
  | .lessEqual => op.applyOrdering Ordering.isLE left right
  | .greater => op.applyOrdering Ordering.isGT left right
  | .greaterEqual => op.applyOrdering Ordering.isGE left right
  | .and => op.applyLogical Bool.and left right
  | .or => op.applyLogical Bool.or left right

end BinaryOp

end GridFormula
