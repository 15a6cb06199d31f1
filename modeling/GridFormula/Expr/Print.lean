import GridFormula.Expr.Basic

/-!
# Written expressions

An expression is written without spaces and without parentheses of its own: those that it needs
are nodes of the expression.

## Main definitions

* `Expr.text`: the written form.
-/

namespace GridFormula.Expr

/-- A field name between apostrophes, with a backslash before each apostrophe. -/
def fieldText (name : List Char) : List Char :=
  '\'' :: name.flatMap (fun c => if c = '\'' then ['\\', '\''] else [c]) ++ ['\'']

mutual

/-- The **written form** of an expression. -/
def text : Expr → List Char
  | .literal value => value.literal
  | .name n => n.toList
  | .field n => fieldText n.toList
  | .currentRow => ['#']
  | .cell c => c.name
  | .sequence items => '[' :: itemsText items ++ [']']
  | .paren inner => '(' :: inner.text ++ [')']
  | .call function arguments => function.toList ++ '(' :: argumentsText arguments ++ [')']
  | .member target n => target.text ++ '.' :: n.toList
  | .memberCall target n arguments =>
    target.text ++ '.' :: n.toList ++ '(' :: argumentsText arguments ++ [')']
  | .unary op operand => op.symbol.toList ++ operand.text
  | .binary op left right => left.text ++ op.symbol.toList ++ right.text

/-- Expressions with commas between them. -/
def itemsText : List Expr → List Char
  | [] => []
  | [item] => item.text
  | item :: others => item.text ++ ',' :: itemsText others

/-- The arguments of a call with their separators. -/
def argumentsText : ArgTree Expr → List Char
  | .omitted => []
  | .leaf e => e.text
  | .group level slots => slotsText level.separator?.toList slots

/-- Slots of arguments with `separator` between them. -/
def slotsText (separator : List Char) : List (ArgTree Expr) → List Char
  | [] => []
  | [slot] => argumentsText slot
  | slot :: others => argumentsText slot ++ (separator ++ slotsText separator others)

end

mutual

/-- The arguments of a call are written as any tree of expressions is. -/
theorem argumentsText_eq : (tree : ArgTree Expr) → argumentsText tree = tree.text Expr.text
  | .omitted => by simp [argumentsText, ArgTree.text]
  | .leaf e => by simp [argumentsText, ArgTree.text]
  | .group level slots => by
    simp only [argumentsText, ArgTree.text]
    exact slotsText_eq _ slots

theorem slotsText_eq (separator : List Char) :
    (slots : List (ArgTree Expr)) →
      slotsText separator slots = ArgTree.slotsText Expr.text separator slots
  | [] => by simp [slotsText, ArgTree.slotsText]
  | [slot] => by simp [slotsText, ArgTree.slotsText, argumentsText_eq slot]
  | slot :: next :: others => by
    simp only [slotsText, ArgTree.slotsText]
    rw [argumentsText_eq slot, slotsText_eq separator (next :: others)]

end

end GridFormula.Expr
