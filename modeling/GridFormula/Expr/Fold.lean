import GridFormula.Evaluation
import GridFormula.Expr.Basic

/-!
# Constant folding

Operators, parentheses and sequences whose operands are all literals collapse into one literal.
Names, fields, cells and calls depend on where the formula stands and never fold, though the
arguments of a call do.

Folding goes from left to right and stops at the first operator that fails on its operands. That
operator keeps its form, and so does everything to its right; what was folded before stays folded.
Inside the arguments of a call a failure concerns the one argument alone.

## Main definitions

* `Expr.fold`: the folded expression, and the failure that stopped the folding.
-/

namespace GridFormula.Expr

/-- The values of a row of literals, or `none` when one of them is no literal. -/
def constants? : List Expr → Option (List Value)
  | [] => some []
  | item :: others => do
    let value ← item.constant?
    let values ← constants? others
    pure (value :: values)

/-- Parentheses around a folded expression; a literal needs none. -/
def foldedParen (inner : Expr) : Expr :=
  match inner.constant? with
  | some value => .literal value
  | none => .paren inner

/-- A sequence of folded expressions; one of literals is a literal. -/
def foldedSequence (items : List Expr) : Expr :=
  match constants? items with
  | some values => .literal (.sequence values)
  | none => .sequence items

/-- The literal of a result, which takes the place of `unfolded`; that stays where there is none. -/
def replaceBy (unfolded : Expr) : Except EvalError Value → Expr × Option EvalError
  | .ok value => (.literal value, none)
  | .error failure => (unfolded, some failure)

/-- An operator on a folded operand. -/
def foldedUnary (op : UnaryOp) (operand : Expr) : Expr × Option EvalError :=
  match operand.constant? with
  | some value => replaceBy (.unary op operand) (op.apply value)
  | none => (.unary op operand, none)

/-- An operator on folded operands. -/
def foldedBinary (op : BinaryOp) (left right : Expr) : Expr × Option EvalError :=
  match left.constant?, right.constant? with
  | some l, some r => replaceBy (.binary op left right) (op.apply l r)
  | _, _ => (.binary op left right, none)

mutual

/-- The **folded expression**, with the failure that stopped the folding, if any. -/
def fold : Expr → Expr × Option EvalError
  | .literal value => (.literal value, none)
  | .name n => (.name n, none)
  | .field n => (.field n, none)
  | .currentRow => (.currentRow, none)
  | .cell c => (.cell c, none)
  | .sequence items =>
    match foldItems items with
    | (items, none) => (foldedSequence items, none)
    | (items, some failure) => (.sequence items, some failure)
  | .paren inner =>
    match fold inner with
    | (inner, none) => (foldedParen inner, none)
    | (inner, some failure) => (.paren inner, some failure)
  | .call function arguments => (.call function (foldArguments arguments), none)
  | .member target n =>
    match fold target with
    | (target, failure) => (.member target n, failure)
  | .memberCall target n arguments =>
    match fold target with
    | (target, none) => (.memberCall target n (foldArguments arguments), none)
    | (target, some failure) => (.memberCall target n arguments, some failure)
  | .unary op operand =>
    match fold operand with
    | (operand, none) => foldedUnary op operand
    | (operand, some failure) => (.unary op operand, some failure)
  | .binary op left right =>
    match fold left with
    | (left, some failure) => (.binary op left right, some failure)
    | (left, none) =>
      match fold right with
      | (right, some failure) => (.binary op left right, some failure)
      | (right, none) => foldedBinary op left right

/-- A row of expressions folded up to the first failure. -/
def foldItems : List Expr → List Expr × Option EvalError
  | [] => ([], none)
  | item :: others =>
    match fold item with
    | (item, some failure) => (item :: others, some failure)
    | (item, none) =>
      match foldItems others with
      | (others, failure) => (item :: others, failure)

/-- The arguments of a call, each folded on its own. -/
def foldArguments : ArgTree Expr → ArgTree Expr
  | .omitted => .omitted
  | .leaf e => .leaf (fold e).1
  | .group level slots => .group level (foldSlots slots)

/-- A row of argument slots, each folded on its own. -/
def foldSlots : List (ArgTree Expr) → List (ArgTree Expr)
  | [] => []
  | slot :: others => foldArguments slot :: foldSlots others

end

end GridFormula.Expr
