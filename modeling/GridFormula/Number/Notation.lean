import GridFormula.Number.Shortest

/-!
# Number texts

The two written forms of a number. In formulas and results a number is written out in plain
digits, however long. In messages it always shows a fraction, and beyond sixteen digits or below
a ten-thousandth it is written with its power of ten.

## Main definitions

* `Number.text`: the plain form.
* `Number.messageText`: the form in messages.
-/

namespace GridFormula

namespace Magnitude

/-- The plain form of a magnitude. -/
def text (m : Magnitude) : List Char :=
  if m.isInfinite then "inf".toList
  else if m.isZero then ['0']
  else m.shortest.plain

/-- The form of a magnitude in messages. Its first digit stands for at least `10 ^ 16` when more
than sixteen digits precede the point, and for less than `10 ^ (-4)` when four zeros follow it. -/
def messageText (m : Magnitude) : List Char :=
  if m.isInfinite then "inf".toList
  else if m.isZero then "0.0".toList
  else
    let d := m.shortest
    if 16 < d.point || d.point ≤ -4 then d.scientific
    else if d.plain.contains '.' then d.plain
    else d.plain ++ ['.', '0']

end Magnitude

namespace Number

/-- A sign before the form of a magnitude. -/
def withSign (negative : Bool) (form : List Char) : List Char :=
  if negative then '-' :: form else form

/-- The **plain form** of a number. -/
def text : Number → List Char
  | .nan => "NaN".toList
  | .signed negative m => withSign negative m.text

/-- The form of a number **in messages**. -/
def messageText : Number → List Char
  | .nan => "NaN".toList
  | .signed negative m => withSign negative m.messageText

end Number

end GridFormula
