import GridFormula.Text.Extender
import GridFormula.Text.Hidden

/-!
# Quoted text

The form in which messages show a text or a character: between quotation marks, with every
character that could mislead the reader written as an escape. A text stands between double
quotes and a character between apostrophes; only the mark in use is escaped.

## Main definitions

* `escaped`: one character of a quoted form.
* `quotedText`, `quotedChar`: the quoted forms.
-/

namespace GridFormula.Text

/-- The escape of a character by its code point, in lower-case hexadecimal digits between
braces. -/
def codePointEscape (c : Char) : List Char :=
  ['\\', 'u', '\x7b'] ++ Nat.toDigits 16 c.toNat ++ ['\x7d']

/-- The character `c` as it stands between two quotation marks `mark`. -/
def escaped (mark c : Char) : List Char :=
  if c = '\x00' then ['\\', '0']
  else if c = '\t' then ['\\', 't']
  else if c = '\r' then ['\\', 'r']
  else if c = '\n' then ['\\', 'n']
  else if c = '\\' || c = mark then ['\\', c]
  else if isExtender c || isHidden c then codePointEscape c
  else [c]

/-- A text between double quotes. -/
def quotedText (text : List Char) : List Char :=
  '"' :: text.flatMap (escaped '"') ++ ['"']

/-- A character between apostrophes. -/
def quotedChar (c : Char) : List Char :=
  '\'' :: escaped '\'' c ++ ['\'']

end GridFormula.Text
