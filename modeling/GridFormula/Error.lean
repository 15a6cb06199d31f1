import GridFormula.Span
import GridFormula.Token
import GridFormula.Value

/-!
# Errors

What can go wrong with a formula, as causes. A syntax error has a cause and a span in the text
that was read; an evaluation error is the failure of an operator on constants; a parameter is
invalid when it has the wrong shape for the function that reads it. Each cause has one wording.

## Main definitions

* `SyntaxFault`, `SyntaxError`, `EvalError`, `Error`: the causes.
* `SyntaxFault.message`, `SyntaxError.message`, `EvalError.message`, `Error.message`: the wordings.
* `Error.shift`: an error as seen from a text in which the old one starts later.
* `Error.inFunction`: an error with the name of the function whose parameters were read.
-/

namespace GridFormula

/-- How deeply calls, parentheses, sequences and unary operators may nest in one formula. -/
def nestingLimit : Nat := 64

/-! ### Syntax errors -/

/-- Why a text is no formula. -/
inductive SyntaxFault where
  /-- The text ends where an operand has to stand. -/
  | unexpectedEnd
  /-- A token stands where none of its kind may. -/
  | unexpectedToken (found : Token)
  /-- A token is missing. -/
  | expectedToken (wanted : Token) (found : Option Token)
  /-- A dot is not followed by a name. -/
  | expectedMember (found : Option Token)
  /-- The formula nests too deeply. -/
  | nestingTooDeep
  /-- The parenthesis of a call is never closed. -/
  | unterminatedCall
  /-- A name with a `$` is no cell of the grid. -/
  | invalidCell (name : String)
  /-- A single equals sign. -/
  | expectedEqualsSign
  /-- A single vertical bar. -/
  | expectedBar
  /-- A quotation mark without its partner. -/
  | unterminatedString
  /-- An opening brace. -/
  | blockLiteral
  /-- A character that begins no token. -/
  | unexpectedCharacter (found : Char)
  /-- A numeral that ends behind its `e`. -/
  | expectedExponentDigits
  /-- A numeral with more than one point. -/
  | invalidNumber (numeral : String)
  /-- A template without its closing brace. -/
  | unterminatedTemplate
  /-- A template whose name is not bound. -/
  | unknownTemplate (name : String)
  /-- Any other fault, in the words of whoever found it. -/
  | other (message : String)
deriving DecidableEq

/-- The wording of a syntax fault. -/
def SyntaxFault.message : SyntaxFault → String
  | .unexpectedEnd => "unexpected end of expression"
  | .unexpectedToken found => "unexpected token " ++ found.label
  | .expectedToken wanted found =>
    "expected " ++ wanted.label ++ ", found " ++ foundLabel found
  | .expectedMember found => "expected member name, found " ++ foundLabel found
  | .nestingTooDeep =>
    "expression nesting exceeds the " ++ toString nestingLimit ++ "-level limit"
  | .unterminatedCall => "unterminated function call"
  | .invalidCell name =>
    "invalid cell reference " ++ String.ofList (Text.quotedText name.toList)
  | .expectedEqualsSign => "expected '==' for comparison"
  | .expectedBar => "expected '||'"
  | .unterminatedString => "unterminated string"
  | .blockLiteral => "block literals are not supported"
  | .unexpectedCharacter found =>
    "unexpected character " ++ String.ofList (Text.quotedChar found)
  | .expectedExponentDigits => "expected exponent digits"
  | .invalidNumber numeral =>
    "invalid number " ++ String.ofList (Text.quotedText numeral.toList)
  | .unterminatedTemplate => "unterminated macro"
  | .unknownTemplate name =>
    "unknown macro " ++ String.ofList (Text.quotedText name.toList)
  | .other message => message

/-- A **syntax error**: a fault and where it was found. -/
structure SyntaxError where
  /-- What is wrong. -/
  fault : SyntaxFault
  /-- Where it is wrong. -/
  span : Span
deriving DecidableEq

namespace SyntaxError

/-- The wording of a syntax error. -/
def message (e : SyntaxError) : String :=
  e.fault.message ++ " (at " ++ toString e.span.start ++ ".." ++ toString e.span.stop ++ ")"

/-- The error with its span moved `offset` bytes to the right. -/
def shift (offset : Nat) (e : SyntaxError) : SyntaxError :=
  ⟨e.fault, e.span.shift offset⟩

end SyntaxError

/-! ### Evaluation errors -/

/-- Why an operator fails on constants. -/
inductive EvalError where
  /-- A division or a remainder by zero. -/
  | divisionByZero
  /-- Operands of kinds that the operator does not take. -/
  | kindMismatch (symbol : String) (operands : List Value.Kind)
  /-- Any other failure, in the words of whoever found it. -/
  | other (message : String)
deriving DecidableEq

/-- The wording of an evaluation error. -/
def EvalError.message : EvalError → String
  | .divisionByZero => "division by zero"
  | .kindMismatch symbol operands =>
    "cannot apply " ++ symbol ++ " to " ++ " and ".intercalate (operands.map Value.Kind.name)
  | .other message => message

/-! ### All errors -/

/-- An **error** of the library. -/
inductive Error where
  /-- A parameter has the wrong shape for the function that reads it: a group where a single
  expression has to stand, or nothing where something has to. -/
  | invalidParameter (function : Option String)
  /-- A text is no formula. -/
  | badSyntax (error : SyntaxError)
  /-- An operator fails on constants. -/
  | evaluation (error : EvalError)
deriving DecidableEq

namespace Error

/-- The wording of an error. -/
def message : Error → String
  | .invalidParameter none => "invalid parameter"
  | .invalidParameter (some function) => function ++ ": invalid parameter"
  | .badSyntax e => "syntax error: " ++ e.message
  | .evaluation e => "evaluation error: " ++ e.message

/-- The error of a part of a text that starts at byte `offset`, as an error of the whole text.
Only syntax errors have a place. -/
def shift (offset : Nat) : Error → Error
  | .badSyntax e => .badSyntax (e.shift offset)
  | e => e

/-- The error with the name of the function whose parameters were read. Only invalid parameters
are blamed on a function. -/
def inFunction (name : String) : Error → Error
  | .invalidParameter _ => .invalidParameter (some name)
  | e => e

/-- A fault at a span, as an error. -/
def ofFault (fault : SyntaxFault) (span : Span) : Error :=
  .badSyntax ⟨fault, span⟩

end Error

end GridFormula
