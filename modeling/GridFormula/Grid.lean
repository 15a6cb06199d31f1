/-!
# Grids and cells

A formula lives in a grid of rows and columns. A cell is written with the letters of its column
and the number of its row, both counted from one: `A1` is the first cell, and the column after
`Z` is `AA`. Column letters are the digits of a number system without a zero.

## Main definitions

* `Cell`: a position, both coordinates counted from zero.
* `Cell.name`, `Cell.ofName?`: writing and reading the name of a cell.
* `Grid`: the bounds of a grid.
* `Grid.cell?`: the cell of a grid that a name stands for.
-/

namespace GridFormula

/-- The position of a **cell**, both coordinates counted from zero. -/
structure Cell where
  /-- The row. -/
  row : Nat
  /-- The column. -/
  col : Nat
deriving DecidableEq

namespace Cell

/-! ### Columns -/

/-- The letter of a column below twenty-six. -/
def columnLetter (index : Nat) : Char :=
  Char.ofNat ('A'.toNat + index)

/-- The letters of a column. The last letter counts single columns; the letters before it name
the column whose block of twenty-six this one lies in. -/
def columnName (col : Nat) : List Char :=
  if col < 26 then [columnLetter col]
  else columnName (col / 26 - 1) ++ [columnLetter (col % 26)]
termination_by col

/-- The place of a letter in the alphabet, counted from one; either case will do. -/
def letterPlace (letter : Char) : Nat :=
  letter.toUpper.toNat - 'A'.toNat + 1

/-- The column that letters name, counted from one. -/
def columnPlace (letters : List Char) : Nat :=
  letters.foldl (fun place letter => place * 26 + letterPlace letter) 0

/-! ### Names -/

/-- The most letters that the column of a cell name may have. -/
def maxColumnLetters : Nat := 3

/-- The largest row number of a cell name. -/
def maxRow : Nat := 4294967295

/-- The **name** of a cell. -/
def name (cell : Cell) : List Char :=
  columnName cell.col ++ Nat.toDigits 10 (cell.row + 1)

/-- The text without one leading marker `$`. -/
def dropMarker : List Char → List Char
  | '$' :: rest => rest
  | text => text

/-- The cell that a name stands for: letters and a row number, each of which may have a `$`
before it. -/
def ofName? (name : List Char) : Option Cell :=
  let text := dropMarker name
  let letters := text.takeWhile Char.isAlpha
  let digits := dropMarker (text.dropWhile Char.isAlpha)
  if letters.isEmpty || maxColumnLetters < letters.length then none
  else if digits.isEmpty || !digits.all Char.isDigit then none
  else
    let row := Nat.ofDigitChars 10 digits 0
    if row = 0 || maxRow < row then none
    else some ⟨row - 1, columnPlace letters - 1⟩

end Cell

/-! ### Grids -/

/-- The bounds of a **grid**. -/
structure Grid where
  /-- The number of rows. -/
  rows : Nat
  /-- The number of columns. -/
  cols : Nat
deriving DecidableEq

namespace Grid

/-- Whether the cell lies within the bounds. -/
def contains (grid : Grid) (cell : Cell) : Bool :=
  cell.row < grid.rows && cell.col < grid.cols

/-- The cell of the grid that `name` stands for. -/
def cell? (grid : Grid) (name : List Char) : Option Cell :=
  (Cell.ofName? name).filter grid.contains

end Grid

end GridFormula
