import GridFormula.ArgTree.Outline
import GridFormula.Expr.Chain
import GridFormula.Expr.Fold
import GridFormula.TokenStream

/-!
# Reading expressions

An expression is read from a stream of tokens. What needs brackets or stands behind a unary
operator is read one level of nesting deeper, and the number of levels is limited, so reading an
operand is defined by recursion on the levels that are left. Everything else is a loop along the
stream.

The arguments of a call are text of their own. They are made a tree whose leaves are read like a
whole formula, again one level deeper.

## Main definitions

* `Expr.operand`: one operand, given a reader for what is nested in it.
* `Expr.chain`: operands with binary operators between them.
* `Expr.whole`: a stream that has to be one expression.
* `Expr.operandAt`: one operand with so many levels of nesting left.
-/

namespace GridFormula

namespace TokenStream

/-! ### What was found instead -/

/-- The error of a stream whose head should have been something else. A lexeme that is no token
is to blame itself. -/
def blame (fault : Option Token → SyntaxFault) : TokenStream → Error
  | .finish position => Error.ofFault (fault none) ⟨position, position⟩
  | .broken e => .badSyntax e
  | .token t span _ => Error.ofFault (fault (some t)) span
  | .call name span _ _ _ | .openCall name span _ _ =>
    Error.ofFault (fault (some (.name name))) span

/-- The fault of a token where none of its kind may stand, or of the end of the text there. -/
def unexpected : Option Token → SyntaxFault
  | none => .unexpectedEnd
  | some t => .unexpectedToken t

/-- Refuses a stream whose head is no token. -/
def intact : TokenStream → Except Error Unit
  | .broken e => .error (.badSyntax e)
  | _ => .ok ()

/-- The stream behind a closing parenthesis. -/
def behindRoundClose : TokenStream → Except Error TokenStream
  | .token .roundClose _ rest => .ok rest
  | s => .error (s.blame (.expectedToken .roundClose))

/-- The stream behind a closing square bracket. -/
def behindSquareClose : TokenStream → Except Error TokenStream
  | .token .squareClose _ rest => .ok rest
  | s => .error (s.blame (.expectedToken .squareClose))

end TokenStream

namespace Expr

/-- A **reader** takes an expression off the head of a stream. -/
abbrev Reader := TokenStream → Except Error (Expr × TokenStream)

/-! ### Chains -/

/-- The operators at the head of a stream, each with the operand behind it. -/
def operations (operand : Reader) (s : TokenStream) : Except Error (Operations × TokenStream) :=
  match s with
  | .token (.operator op) _ rest =>
    match operand rest with
    | .error e => .error e
    | .ok (e, behind) =>
      if behind.size < rest.size + 1 then
        match operations operand behind with
        | .error e => .error e
        | .ok (others, last) => .ok ((op, e) :: others, last)
      else .ok ([(op, e)], behind)
  | s => .ok ([], s)
termination_by s.size

/-- An expression of operands with binary operators between them. -/
def chain (operand : Reader) : Reader := fun s => do
  let (first, s) ← operand s
  let (others, s) ← operations operand s
  pure (assemble first others, s)

/-- The expression that makes up a whole stream. -/
def whole (operand : Reader) (s : TokenStream) : Except Error Expr := do
  let (e, s) ← chain operand s
  match s with
  | .finish _ => pure e
  | s => .error (s.blame TokenStream.unexpected)

/-- The expressions of a sequence, of which there is at least one, with commas between them. -/
def elements (element : Reader) (s : TokenStream) :
    Except Error (List Expr × TokenStream) :=
  match element s with
  | .error e => .error e
  | .ok (e, .token .comma _ rest) =>
    if rest.size < s.size then
      match elements element rest with
      | .error e => .error e
      | .ok (others, last) => .ok (e :: others, last)
    else .ok ([e], rest)
  | .ok (e, behind) => .ok ([e], behind)
termination_by s.size

/-! ### What is nested -/

/-- What stands between the parentheses of a call, of which the first stands at byte `opening`.
Each leaf is a whole expression of `deeper` operands. -/
def arguments (optimize : Bool) (deeper : Option Reader) (opening : Nat) (text : List Char) :
    Except Error (ArgTree Expr) :=
  match deeper with
  | none => .error (Error.ofFault .nestingTooDeep ⟨opening, opening + 1⟩)
  | some operand =>
    let leaf (text : List Char) : Except Error Expr := do
      let e ← whole operand (.ofText text)
      pure (if optimize then e.fold.1 else e)
    (ArgTree.ofText leaf text).mapError (Error.shift (opening + 1))

/-- The error of a call whose parentheses stay open up to byte `stop`. -/
def openCallError (deeper : Option Reader) (opening stop : Nat) : Error :=
  match deeper with
  | none => Error.ofFault .nestingTooDeep ⟨opening, opening + 1⟩
  | some _ => Error.ofFault .unterminatedCall ⟨opening, stop⟩

/-- The reader for what is nested behind the token at `span`. -/
def nested (deeper : Option Reader) (span : Span) : Except Error Reader :=
  match deeper with
  | none => .error (Error.ofFault .nestingTooDeep span)
  | some operand => .ok operand

/-! ### Operands -/

/-- The expression `e` with the members that follow it. -/
def members (optimize : Bool) (deeper : Option Reader) (e : Expr) : Reader
  | .token .dot _ (.token (.name n) _ rest) => members optimize deeper (.member e n) rest
  | .token .dot _ (.call n _ opening text rest) => do
    let inside ← arguments optimize deeper opening text
    members optimize deeper (.memberCall e n inside) rest
  | .token .dot _ (.openCall _ _ opening stop) => .error (openCallError deeper opening stop)
  | .token .dot _ (.token t span rest) => do
    rest.intact
    .error (Error.ofFault (.expectedMember (some t)) span)
  | .token .dot _ s => .error (s.blame .expectedMember)
  | s => .ok (e, s)

/-- What a bare name at `span` stands for. -/
def ofName (grid : Grid) (n : String) (span : Span) : Except Error Expr :=
  if n = "true" then .ok (.literal (.bool true))
  else if n = "false" then .ok (.literal (.bool false))
  else if n = "null" then .ok (.literal .null)
  else
    match grid.cell? n.toList with
    | some c => .ok (.cell c)
    | none =>
      if n.toList.contains '$' then .error (Error.ofFault (.invalidCell n) span)
      else .ok (.name n)

/-- What a unary operator at `span` makes of the operand behind it. -/
def unaryOperand (deeper : Option Reader) (op : UnaryOp) (span : Span) : Reader := fun s => do
  let operand ← nested deeper span
  let (e, s) ← operand s
  pure (.unary op e, s)

/-- What stands behind an opening parenthesis at `span`, up to the closing one. -/
def parenthesized (deeper : Option Reader) (span : Span) : Reader := fun s => do
  let operand ← nested deeper span
  let (e, s) ← chain operand s
  let s ← s.behindRoundClose
  pure (.paren e, s)

/-- What stands behind an opening square bracket at `span`, up to the closing one. -/
def bracketed (deeper : Option Reader) (span : Span) : Reader := fun s => do
  let operand ← nested deeper span
  match s with
  | .token .squareClose _ rest => pure (.sequence [], rest)
  | s => do
    let (items, s) ← elements (chain operand) s
    let s ← s.behindSquareClose
    pure (.sequence items, s)

/-- A reader of **one operand**: a literal, a name, something between brackets or a call, with the
members that follow it, or a unary operator with its operand. What is nested in it is read by
`deeper`. -/
def operand (grid : Grid) (optimize : Bool) (deeper : Option Reader) : Reader
  | .token (.operator .subtract) span rest => unaryOperand deeper .negate span rest
  | .token .bang span rest => unaryOperand deeper .not span rest
  | .token (.number n) _ rest => members optimize deeper (.literal (.number n)) rest
  | .token (.text s) _ rest => members optimize deeper (.literal (.text s)) rest
  | .token (.field n) _ rest => members optimize deeper (.field n) rest
  | .token .hash _ rest => members optimize deeper .currentRow rest
  | .token (.name n) span rest => do
    rest.intact
    let e ← ofName grid n span
    members optimize deeper e rest
  | .token .roundOpen span rest => do
    let (e, rest) ← parenthesized deeper span rest
    members optimize deeper e rest
  | .token .squareOpen span rest => do
    let (e, rest) ← bracketed deeper span rest
    members optimize deeper e rest
  | .call n _ opening text rest => do
    let inside ← arguments optimize deeper opening text
    members optimize deeper (.call n inside) rest
  | .openCall _ _ opening stop => .error (openCallError deeper opening stop)
  | s => .error (s.blame TokenStream.unexpected)

/-- One operand with `levels` levels of nesting left. -/
def operandAt (grid : Grid) (optimize : Bool) : Nat → Reader
  | 0 => operand grid optimize none
  | levels + 1 => operand grid optimize (some (operandAt grid optimize levels))

end Expr

end GridFormula
