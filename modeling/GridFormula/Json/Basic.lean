/-!
# JSON values

The values of JSON text. Numbers keep their written form, since only whole numbers are ever used.
A string may be written with escapes that stand for no character, the halves of surrogate pairs on
their own; such a string is a value like any other, but it has no text.

## Main definitions

* `Json`: the values.
* `Json.Unit`: the units of a written string.
* `Json.textOfUnits?`: the text that the units of a string make up.
-/

namespace GridFormula

/-- A **JSON value**. -/
inductive Json where
  /-- The word `null`. -/
  | null
  /-- A truth value. -/
  | bool (value : Bool)
  /-- A number, as it is written. -/
  | number (numeral : List Char)
  /-- A string, if it has a text. -/
  | string (text : Option (List Char))
  /-- A row of values. -/
  | array (items : List Json)
  /-- Values with keys, in the order in which they are written. -/
  | object (fields : List (Option (List Char) × Json))

namespace Json

/-- A **unit** of a written string. -/
inductive Unit where
  /-- A character. -/
  | char (c : Char)
  /-- Sixteen bits, given by four hexadecimal digits. -/
  | bits (code : Nat)

/-- Whether sixteen bits are the first half of a surrogate pair. -/
def isHighSurrogate (code : Nat) : Bool := 0xd800 ≤ code && code < 0xdc00

/-- Whether sixteen bits are the second half of a surrogate pair. -/
def isLowSurrogate (code : Nat) : Bool := 0xdc00 ≤ code && code < 0xe000

/-- The character of a surrogate pair. -/
def ofSurrogates (high low : Nat) : Char :=
  Char.ofNat (0x10000 + (high - 0xd800) * 0x400 + (low - 0xdc00))

/-- The **text** that the units of a string make up. There is none when one half of a surrogate
pair lacks the other. -/
def textOfUnits? : List Unit → Option (List Char)
  | [] => some []
  | .char c :: rest => (textOfUnits? rest).map (c :: ·)
  | .bits high :: .bits low :: rest =>
    if isHighSurrogate high then
      if isLowSurrogate low then (textOfUnits? rest).map (ofSurrogates high low :: ·) else none
    else if isLowSurrogate high then none
    else (textOfUnits? (.bits low :: rest)).map (Char.ofNat high :: ·)
  | .bits code :: rest =>
    if isHighSurrogate code || isLowSurrogate code then none
    else (textOfUnits? rest).map (Char.ofNat code :: ·)

end Json

end GridFormula
