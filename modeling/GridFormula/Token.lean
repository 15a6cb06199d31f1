import GridFormula.Number.Notation
import GridFormula.Operator
import GridFormula.Text.Quoted

/-!
# Tokens

The words of a formula, and the names under which messages mention them.

## Main definitions

* `Token`: the tokens.
* `Token.label`: the name of a token in messages.
* `foundLabel`: the name of what was found in place of an expected token.
-/

namespace GridFormula

/-- A **token**: one word of a formula. -/
inductive Token where
  /-- A number. -/
  | number (value : Number)
  /-- A text between double quotes. -/
  | text (value : String)
  /-- A field name between apostrophes. -/
  | field (name : String)
  /-- A bare name. -/
  | name (name : String)
  /-- The sign `#` for the current row. -/
  | hash
  /-- An opening parenthesis. -/
  | roundOpen
  /-- A closing parenthesis. -/
  | roundClose
  /-- An opening square bracket. -/
  | squareOpen
  /-- A closing square bracket. -/
  | squareClose
  /-- A comma. -/
  | comma
  /-- A dot. -/
  | dot
  /-- The sign `!` for negation of truth values. -/
  | bang
  /-- The sign of a binary operator; the minus sign also stands before a single operand. -/
  | operator (op : BinaryOp)
deriving DecidableEq

/-- The name of a binary operator's sign in messages. -/
def BinaryOp.label : BinaryOp → String
  | .add => "Plus"
  | .subtract => "Minus"
  | .multiply => "Star"
  | .divide => "Slash"
  | .modulo => "Percent"
  | .concat => "Ampersand"
  | .equal => "EqEq"
  | .notEqual => "NotEquals"
  | .less => "Less"
  | .lessEqual => "LessEquals"
  | .greater => "Greater"
  | .greaterEqual => "GreaterEquals"
  | .and => "AndAnd"
  | .or => "OrOr"

namespace Token

/-- The name of a token with what it holds between parentheses. -/
def labelled (word : String) (held : List Char) : String :=
  word ++ "(" ++ String.ofList held ++ ")"

/-- The **label** of a token: its name in messages. -/
def label : Token → String
  | .number n => labelled "Number" n.messageText
  | .text s => labelled "String" (Text.quotedText s.toList)
  | .field s => labelled "QuotedField" (Text.quotedText s.toList)
  | .name s => labelled "Ident" (Text.quotedText s.toList)
  | .hash => "Hash"
  | .roundOpen => "LParen"
  | .roundClose => "RParen"
  | .squareOpen => "LBracket"
  | .squareClose => "RBracket"
  | .comma => "Comma"
  | .dot => "Dot"
  | .bang => "Bang"
  | .operator op => op.label

end Token

/-- The label of what was found: a token, or the end of the text. -/
def foundLabel : Option Token → String
  | some token => token.label
  | none => "Eof"

end GridFormula
