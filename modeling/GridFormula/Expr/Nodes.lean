import GridFormula.Context
import GridFormula.Expr.Basic

/-!
# The nodes of an expression

Every node of an expression, including those in the arguments of its calls, each before the nodes
below it and from left to right. What an expression depends on is read off this list.

## Main definitions

* `Expr.nodes`: the nodes.
* `Expr.containsParam`: whether a bare name occurs.
* `Expr.usedParams`, `Expr.usedFields`, `Expr.usedCells`: what an expression depends on, added to a
  list that holds each item once.
-/

namespace GridFormula

/-- The list with those `items` added at its end that it does not hold yet. -/
def addNew {α : Type} [DecidableEq α] (held items : List α) : List α :=
  items.foldl (fun held item => if item ∈ held then held else held ++ [item]) held

namespace Expr

mutual

/-- The **nodes** of an expression, each before those below it. -/
def nodes : Expr → List Expr
  | .literal value => [.literal value]
  | .name n => [.name n]
  | .field n => [.field n]
  | .currentRow => [.currentRow]
  | .cell c => [.cell c]
  | .sequence items => .sequence items :: itemsNodes items
  | .paren inner => .paren inner :: inner.nodes
  | .call function arguments => .call function arguments :: argumentsNodes arguments
  | .member target n => .member target n :: target.nodes
  | .memberCall target n arguments =>
    .memberCall target n arguments :: (target.nodes ++ argumentsNodes arguments)
  | .unary op operand => .unary op operand :: operand.nodes
  | .binary op left right => .binary op left right :: (left.nodes ++ right.nodes)

/-- The nodes of a row of expressions. -/
def itemsNodes : List Expr → List Expr
  | [] => []
  | item :: others => item.nodes ++ itemsNodes others

/-- The nodes of the expressions in an argument tree. -/
def argumentsNodes : ArgTree Expr → List Expr
  | .omitted => []
  | .leaf e => e.nodes
  | .group _ slots => slotsNodes slots

/-- The nodes of the expressions in a row of slots. -/
def slotsNodes : List (ArgTree Expr) → List Expr
  | [] => []
  | slot :: others => argumentsNodes slot ++ slotsNodes others

end

/-! ### Dependencies -/

/-- The bare name that a node is. -/
def bareName? : Expr → Option String
  | .name n => some n
  | _ => none

/-- The parameter that a node refers to: a bare name that the context binds. -/
def param? (context : Context) (node : Expr) : Option String :=
  node.bareName?.filter context.contains

/-- The field that a node refers to: a bare name that the context does not bind, or a quoted
name. -/
def field? (context : Context) : Expr → Option String
  | .name n => if context.contains n then none else some n
  | .field n => some n
  | _ => none

/-- The cell that a node is. -/
def cell? : Expr → Option Cell
  | .cell c => some c
  | _ => none

/-- Whether the bare name `n` occurs in the expression. -/
def containsParam (n : String) (e : Expr) : Bool :=
  (e.nodes.filterMap bareName?).contains n

/-- The **parameters** of the expression, added to those held. -/
def usedParams (context : Context) (e : Expr) (held : List String) : List String :=
  addNew held (e.nodes.filterMap (param? context))

/-- The **fields** of the expression, added to those held. -/
def usedFields (context : Context) (e : Expr) (held : List String) : List String :=
  addNew held (e.nodes.filterMap (field? context))

/-- The **cells** of the expression, added to those held. -/
def usedCells (e : Expr) (held : List Cell) : List Cell :=
  addNew held (e.nodes.filterMap cell?)

end Expr

end GridFormula
