import GridFormula.Number.Decimal

/-!
# Reading numbers

A numeral is a row of decimal digits that may hold one point, with an optional power of ten
behind an `e`. A written number is a numeral, an infinity or `nan`, with an optional sign.

## Main definitions

* `Decimal.ofNumeral?`: the decimal fraction that a numeral stands for.
* `Magnitude.ofNumeral?`: the magnitude nearest to it.
* `Number.ofText?`: the number that a text stands for.
-/

namespace GridFormula

/-- The power of ten behind the mantissa of a numeral: nothing, or an `e`, an optional sign and
at least one digit. -/
def Decimal.powerOfText? : List Char → Option Int
  | [] => some 0
  | mark :: rest =>
    if mark = 'e' || mark = 'E' then
      let (negative, digits) := match rest with
        | '-' :: digits => (true, digits)
        | '+' :: digits => (false, digits)
        | digits => (false, digits)
      if digits.isEmpty || !digits.all Char.isDigit then none
      else
        let power : Int := Nat.ofDigitChars 10 digits 0
        some (if negative then -power else power)
    else none

/-- The decimal fraction that a **numeral** stands for, or `none` when the text is no numeral. At
least one digit has to stand before or behind the point. -/
def Decimal.ofNumeral? (text : List Char) : Option Decimal :=
  let whole := text.takeWhile Char.isDigit
  let (fraction, rest) := match text.dropWhile Char.isDigit with
    | '.' :: rest => (rest.takeWhile Char.isDigit, rest.dropWhile Char.isDigit)
    | rest => ([], rest)
  let digits := whole ++ fraction
  if digits.isEmpty then none
  else (powerOfText? rest).map fun power =>
    ⟨Nat.ofDigitChars 10 digits 0, power - fraction.length⟩

/-- The magnitude nearest to what a numeral stands for. -/
def Magnitude.ofNumeral? (text : List Char) : Option Magnitude :=
  (Decimal.ofNumeral? text).map Decimal.nearest

namespace Number

/-- The number that a text without a sign stands for. The words are read in any case. -/
def ofUnsigned? (negative : Bool) (text : List Char) : Option Number :=
  let word := text.map Char.toLower
  if word = "inf".toList || word = "infinity".toList then some (.signed negative .infinity)
  else if word = "nan".toList then some .nan
  else (Magnitude.ofNumeral? text).map (.signed negative)

/-- The number that a text stands for, or `none` when it is not one. -/
def ofText? (text : String) : Option Number :=
  match text.toList with
  | '-' :: rest => ofUnsigned? true rest
  | '+' :: rest => ofUnsigned? false rest
  | rest => ofUnsigned? false rest

end Number

end GridFormula
