import GridFormula.Json.Basic

/-!
# Reading JSON

JSON text is read strictly: blanks are spaces, tabs and line ends, numbers have no leading zeros
and no bare points, strings hold no control characters, lists have no trailing commas, and nothing
follows the value.

Every value, key and separator takes at least one character, so the length of the text bounds the
number of steps.

## Main definitions

* `Json.read?`: the value of a text.
-/

namespace GridFormula.Json

/-! ### Leaves -/

/-- Whether `c` may stand between the tokens of JSON text. -/
def isSpace (c : Char) : Bool := c = ' ' || c = '\n' || c = '\t' || c = '\r'

/-- The text from its first character on that is no space. -/
def skipSpaces (text : List Char) : List Char := text.dropWhile isSpace

/-- The text behind a word that has to stand at its start. -/
def behindWord? : List Char → List Char → Option (List Char)
  | [], text => some text
  | _ :: _, [] => none
  | w :: word, c :: text => if w = c then behindWord? word text else none

/-- The value of a hexadecimal digit in either case. -/
def hexValue? (c : Char) : Option Nat :=
  if c.isDigit then some (c.toNat - '0'.toNat)
  else if 'a' ≤ c && c ≤ 'f' then some (c.toNat - 'a'.toNat + 10)
  else if 'A' ≤ c && c ≤ 'F' then some (c.toNat - 'A'.toNat + 10)
  else none

/-- The value of four hexadecimal digits. -/
def hexCode? (a b c d : Char) : Option Nat := do
  let a ← hexValue? a
  let b ← hexValue? b
  let c ← hexValue? c
  let d ← hexValue? d
  pure (((a * 16 + b) * 16 + c) * 16 + d)

/-- The character of an escape of one letter. -/
def escapedChar? (c : Char) : Option Char :=
  if c = '"' || c = '\\' || c = '/' then some c
  else if c = 'b' then some '\x08'
  else if c = 'f' then some '\x0c'
  else if c = 'n' then some '\n'
  else if c = 'r' then some '\r'
  else if c = 't' then some '\t'
  else none

/-- One more unit at the start of a string. -/
def pushUnit (unit : Unit) : List Unit × List Char → List Unit × List Char
  | (units, rest) => (unit :: units, rest)

/-- The units of a string behind its opening quote, and the text behind its closing one. -/
def readUnits? : List Char → Option (List Unit × List Char)
  | [] => none
  | '"' :: rest => some ([], rest)
  | '\\' :: 'u' :: a :: b :: c :: d :: rest => do
    let code ← hexCode? a b c d
    (readUnits? rest).map (pushUnit (.bits code))
  | '\\' :: c :: rest => do
    let c ← escapedChar? c
    (readUnits? rest).map (pushUnit (.char c))
  | c :: rest =>
    if c.toNat < 0x20 || c = '\\' then none else (readUnits? rest).map (pushUnit (.char c))

/-- A string behind its opening quote, and the text behind its closing one. -/
def readString? (text : List Char) : Option (Option (List Char) × List Char) :=
  (readUnits? text).map fun (units, rest) => (textOfUnits? units, rest)

/-- At least one digit, and the text behind the digits. -/
def readDigits? (text : List Char) : Option (List Char × List Char) :=
  let digits := text.takeWhile Char.isDigit
  if digits.isEmpty then none else some (digits, text.dropWhile Char.isDigit)

/-- The whole part of a number: a zero on its own, or digits that do not begin with one. -/
def readWhole? : List Char → Option (List Char × List Char)
  | '0' :: rest => some (['0'], rest)
  | text => readDigits? text

/-- The fraction of a number, if there is a point. -/
def readFraction? : List Char → Option (List Char × List Char)
  | '.' :: rest => (readDigits? rest).map fun (digits, rest) => ('.' :: digits, rest)
  | text => some ([], text)

/-- The sign of an exponent, if there is one. -/
def readSign : List Char → List Char × List Char
  | '+' :: rest => (['+'], rest)
  | '-' :: rest => (['-'], rest)
  | text => ([], text)

/-- The exponent of a number, if there is an `e`. -/
def readPower? : List Char → Option (List Char × List Char)
  | [] => some ([], [])
  | c :: rest =>
    if c = 'e' || c = 'E' then
      let (sign, rest) := readSign rest
      (readDigits? rest).map fun (digits, rest) => (c :: (sign ++ digits), rest)
    else some ([], c :: rest)

/-- A number, and the text behind it. -/
def readNumber? (text : List Char) : Option (List Char × List Char) := do
  let (sign, text) := match text with
    | '-' :: rest => (['-'], rest)
    | text => ([], text)
  let (whole, text) ← readWhole? text
  let (fraction, text) ← readFraction? text
  let (power, text) ← readPower? text
  pure (sign ++ whole ++ fraction ++ power, text)

/-! ### Values -/

mutual

/-- A value at the start of a text, and the text behind it, in at most `steps` steps. -/
def readValue? : Nat → List Char → Option (Json × List Char)
  | 0, _ => none
  | steps + 1, text =>
    match skipSpaces text with
    | [] => none
    | '"' :: rest => (readString? rest).map fun (text, rest) => (.string text, rest)
    | '[' :: rest =>
      match skipSpaces rest with
      | ']' :: rest => some (.array [], rest)
      | rest => (readItems? steps rest).map fun (items, rest) => (.array items, rest)
    | '\x7b' :: rest =>
      match skipSpaces rest with
      | '\x7d' :: rest => some (.object [], rest)
      | rest => (readFields? steps rest).map fun (fields, rest) => (.object fields, rest)
    | 't' :: rest => (behindWord? "rue".toList rest).map fun rest => (.bool true, rest)
    | 'f' :: rest => (behindWord? "alse".toList rest).map fun rest => (.bool false, rest)
    | 'n' :: rest => (behindWord? "ull".toList rest).map fun rest => (.null, rest)
    | rest => (readNumber? rest).map fun (numeral, rest) => (.number numeral, rest)

/-- The items of an array, of which there is at least one, and the text behind its bracket. -/
def readItems? : Nat → List Char → Option (List Json × List Char)
  | 0, _ => none
  | steps + 1, text => do
    let (item, rest) ← readValue? steps text
    match skipSpaces rest with
    | ']' :: rest => pure ([item], rest)
    | ',' :: rest => do
      let (items, rest) ← readItems? steps rest
      pure (item :: items, rest)
    | _ => none

/-- The fields of an object, of which there is at least one, and the text behind its brace. -/
def readFields? : Nat → List Char → Option (List (Option (List Char) × Json) × List Char)
  | 0, _ => none
  | steps + 1, text =>
    match skipSpaces text with
    | '"' :: rest => do
      let (key, rest) ← readString? rest
      match skipSpaces rest with
      | ':' :: rest => do
        let (value, rest) ← readValue? steps rest
        match skipSpaces rest with
        | '\x7d' :: rest => pure ([(key, value)], rest)
        | ',' :: rest => do
          let (fields, rest) ← readFields? steps rest
          pure ((key, value) :: fields, rest)
        | _ => none
      | _ => none
    | _ => none

end

/-- The **value of a text**, or `none` when the text is not JSON. -/
def read? (text : List Char) : Option Json :=
  match readValue? (text.length + 1) text with
  | some (value, rest) => if (skipSpaces rest).isEmpty then some value else none
  | none => none

end GridFormula.Json
