/-!
# Writing JSON

JSON text without spaces. In strings only quotes, backslashes and control characters are escaped.

## Main definitions

* `Json.stringText`: a string.
* `Json.objectText`: an object whose values have been written.
-/

namespace GridFormula.Json

/-- A character as it stands in a JSON string. -/
def escapedForm (c : Char) : List Char :=
  if c = '"' || c = '\\' then ['\\', c]
  else if c = '\x08' then ['\\', 'b']
  else if c = '\x0c' then ['\\', 'f']
  else if c = '\n' then ['\\', 'n']
  else if c = '\r' then ['\\', 'r']
  else if c = '\t' then ['\\', 't']
  else if c.toNat < 0x20 then
    ['\\', 'u', '0', '0', Nat.digitChar (c.toNat / 16), Nat.digitChar (c.toNat % 16)]
  else [c]

/-- A JSON **string**. -/
def stringText (text : List Char) : List Char :=
  '"' :: text.flatMap escapedForm ++ ['"']

/-- Fields with commas between them. -/
def fieldsText : List (String × List Char) → List Char
  | [] => []
  | [(key, value)] => stringText key.toList ++ ':' :: value
  | (key, value) :: others => stringText key.toList ++ ':' :: value ++ ',' :: fieldsText others

/-- A JSON **object**, from its keys and written values. -/
def objectText (fields : List (String × List Char)) : List Char :=
  '\x7b' :: fieldsText fields ++ ['\x7d']

/-- A truth value. -/
def boolText (b : Bool) : List Char := if b then "true".toList else "false".toList

/-- A natural number. -/
def natText (n : Nat) : List Char := Nat.toDigits 10 n

end GridFormula.Json
