import GridFormula.Error
import GridFormula.Number.Reading
import GridFormula.Text.Letter
import GridFormula.Text.Numeral

/-!
# Lexemes

A lexeme is a token as it stands in a text, or a part of the text that should have been a token
and is none. Which characters belong to it is decided from left to right, taking as many as fit.

## Main definitions

* `Lexeme`: the characters, what they are read as, and the text behind.
* `Lexeme.ofHead`: the lexeme at the head of a text that does not begin with a blank.

## Main results

* `Lexeme.covers_ofHead`: a lexeme has at least one character, and with the text behind it it makes
  up the text.
-/

namespace GridFormula

/-- A **lexeme**: the first characters of a text, read as a token. -/
structure Lexeme where
  /-- The characters of the lexeme. -/
  source : List Char
  /-- The token that they are, or why they are none. -/
  reading : Except SyntaxFault Token
  /-- The text behind them. -/
  rest : List Char

namespace Lexeme

/-! ### Quotations -/

/-- The character that stands for `c` behind a backslash. -/
def unescaped (c : Char) : Char :=
  if c = 'n' then '\n' else if c = 't' then '\t' else if c = 'r' then '\r' else c

/-- The text of a quotation behind its opening mark. -/
structure Quotation where
  /-- What the quotation says, unless it is never closed. -/
  content : Option (List Char)
  /-- Its characters, with the closing mark. -/
  source : List Char
  /-- The text behind it. -/
  rest : List Char

/-- The quotation with one more character `c` at its start, which is written as `written`. -/
def Quotation.push (q : Quotation) (written : List Char) (c : Char) : Quotation :=
  ⟨q.content.map (c :: ·), written ++ q.source, q.rest⟩

/-- The quotation that ends at the next `mark` that no backslash hides. -/
def quotation (mark : Char) : List Char → Quotation
  | [] => ⟨none, [], []⟩
  | [c] => if c = mark then ⟨some [], [c], []⟩ else ⟨none, [c], []⟩
  | c :: d :: rest =>
    if c = mark then ⟨some [], [c], d :: rest⟩
    else if c = '\\' then (quotation mark rest).push [c, d] (unescaped d)
    else (quotation mark (d :: rest)).push [c] c

/-- The lexeme of a quotation, whose content `read` makes a token. -/
def ofQuotation (mark : Char) (read : String → Token) (text : List Char) : Lexeme :=
  let q := quotation mark text
  match q.content with
  | some content => ⟨mark :: q.source, .ok (read (String.ofList content)), q.rest⟩
  | none => ⟨mark :: q.source, .error .unterminatedString, q.rest⟩

/-! ### Numerals -/

/-- Whether `c` may stand in a numeral before its exponent. -/
def isNumeralPart (c : Char) : Bool := c.isDigit || c = '.'

/-- The sign of an exponent, and the text behind it. -/
def exponentSign : List Char → List Char × List Char
  | '+' :: rest => (['+'], rest)
  | '-' :: rest => (['-'], rest)
  | rest => ([], rest)

/-- The exponent at the head of a text, and the text behind it. There may be none. -/
def exponent : List Char → List Char × List Char
  | [] => ([], [])
  | c :: rest =>
    if c = 'e' || c = 'E' then
      let (sign, digits) := exponentSign rest
      (c :: (sign ++ digits.takeWhile Char.isDigit), digits.dropWhile Char.isDigit)
    else ([], c :: rest)

/-- Whether an exponent is absent or ends with a digit. -/
def exponentComplete (exponent : List Char) : Bool :=
  exponent.isEmpty || exponent.getLast?.any Char.isDigit

/-- The lexeme of a numeral, of which every point and every digit is taken. -/
def ofNumeral (text : List Char) : Lexeme :=
  let mantissa := text.takeWhile isNumeralPart
  let (power, rest) := exponent (text.dropWhile isNumeralPart)
  let source := mantissa ++ power
  let reading :=
    if exponentComplete power then
      match Magnitude.ofNumeral? source with
      | some m => .ok (.number (.signed false m))
      | none => .error (.invalidNumber (String.ofList source))
    else .error .expectedExponentDigits
  ⟨source, reading, rest⟩

/-! ### Names -/

/-- Whether `c` may begin a name. -/
def isNameStart (c : Char) : Bool := Text.isLetter c || c = '_' || c = '$'

/-- Whether `c` may continue a name. -/
def isNamePart (c : Char) : Bool :=
  Text.isLetter c || Text.isNumeral c || c = '_' || c = '$'

/-- The lexeme of a name that begins with `c`. -/
def ofName (c : Char) (rest : List Char) : Lexeme :=
  let name := c :: rest.takeWhile isNamePart
  ⟨name, .ok (.name (String.ofList name)), rest.dropWhile isNamePart⟩

/-! ### Signs -/

/-- A sign of one character. -/
def single (c : Char) (token : Token) (rest : List Char) : Lexeme :=
  ⟨[c], .ok token, rest⟩

/-- A sign that is another one when `second` follows. -/
def pair (c second : Char) (double token : Token) (rest : List Char) : Lexeme :=
  match rest with
  | [] => single c token []
  | d :: behind =>
    if d = second then ⟨[c, d], .ok double, behind⟩ else single c token (d :: behind)

/-- A sign that is one only when `second` follows. Any other character there is taken with it. -/
def doubled (c second : Char) (token : Token) (fault : SyntaxFault) (rest : List Char) : Lexeme :=
  match rest with
  | [] => ⟨[c], .error fault, []⟩
  | d :: behind => ⟨[c, d], if d = second then .ok token else .error fault, behind⟩

/-- A character that begins no token. -/
def refused (c : Char) (fault : SyntaxFault) (rest : List Char) : Lexeme :=
  ⟨[c], .error fault, rest⟩

/-- The lexeme that begins with a character other than a sign or a quotation mark. -/
def ofWord (c : Char) (rest : List Char) : Lexeme :=
  if c.isDigit then ofNumeral (c :: rest)
  else if isNameStart c then ofName c rest
  else refused c (.unexpectedCharacter c) rest

/-- The **lexeme** at the head of the text `c :: rest`, where `c` is not blank. -/
def ofHead (c : Char) (rest : List Char) : Lexeme :=
  match c with
  | '(' => single c .roundOpen rest
  | ')' => single c .roundClose rest
  | '[' => single c .squareOpen rest
  | ']' => single c .squareClose rest
  | ',' => single c .comma rest
  | '.' => single c .dot rest
  | '#' => single c .hash rest
  | '+' => single c (.operator .add) rest
  | '-' => single c (.operator .subtract) rest
  | '*' => single c (.operator .multiply) rest
  | '/' => single c (.operator .divide) rest
  | '%' => single c (.operator .modulo) rest
  | '&' => pair c '&' (.operator .and) (.operator .concat) rest
  | '!' => pair c '=' (.operator .notEqual) .bang rest
  | '<' => pair c '=' (.operator .lessEqual) (.operator .less) rest
  | '>' => pair c '=' (.operator .greaterEqual) (.operator .greater) rest
  | '=' => doubled c '=' (.operator .equal) .expectedEqualsSign rest
  | '|' => doubled c '|' (.operator .or) .expectedBar rest
  | '"' => ofQuotation c .text rest
  | '\'' => ofQuotation c .field rest
  | '\x7b' => refused c .blockLiteral rest
  | _ => ofWord c rest

/-! ### What a lexeme takes -/

/-- A lexeme **covers** the head of a text: it has at least one character, and it makes up the text
with what is behind it. -/
structure Covers (lexeme : Lexeme) (text : List Char) : Prop where
  /-- The lexeme and the text behind it make up the text. -/
  source_append_rest : lexeme.source ++ lexeme.rest = text
  /-- The lexeme has at least one character. -/
  source_ne_nil : lexeme.source ≠ []

theorem covers_single (c : Char) (token : Token) (rest : List Char) :
    Covers (single c token rest) (c :: rest) :=
  ⟨rfl, List.cons_ne_nil _ _⟩

theorem covers_refused (c : Char) (fault : SyntaxFault) (rest : List Char) :
    Covers (refused c fault rest) (c :: rest) :=
  ⟨rfl, List.cons_ne_nil _ _⟩

theorem covers_pair (c second : Char) (double token : Token) (rest : List Char) :
    Covers (pair c second double token rest) (c :: rest) := by
  unfold pair
  split
  · exact covers_single c token []
  · split
    · exact ⟨rfl, List.cons_ne_nil _ _⟩
    · exact covers_single c token _

theorem covers_doubled (c second : Char) (token : Token) (fault : SyntaxFault)
    (rest : List Char) : Covers (doubled c second token fault rest) (c :: rest) := by
  unfold doubled
  split <;> exact ⟨rfl, List.cons_ne_nil _ _⟩

theorem quotation_append (mark : Char) (text : List Char) :
    (quotation mark text).source ++ (quotation mark text).rest = text := by
  fun_induction quotation mark text <;> simp_all [Quotation.push]

theorem covers_ofQuotation (mark : Char) (read : String → Token) (rest : List Char) :
    Covers (ofQuotation mark read rest) (mark :: rest) := by
  have happend := congrArg (mark :: ·) (quotation_append mark rest)
  unfold ofQuotation
  dsimp only
  split <;> exact ⟨happend, List.cons_ne_nil _ _⟩

theorem exponent_append (text : List Char) : (exponent text).1 ++ (exponent text).2 = text := by
  unfold exponent
  split
  · rfl
  · split
    · simp only [exponentSign]
      split <;> simp [List.takeWhile_append_dropWhile]
    · rfl

theorem covers_ofNumeral {c : Char} (hc : c.isDigit = true) (rest : List Char) :
    Covers (ofNumeral (c :: rest)) (c :: rest) := by
  refine ⟨?_, ?_⟩
  · simp only [ofNumeral, List.append_assoc, exponent_append, List.takeWhile_append_dropWhile]
  · simp [ofNumeral, isNumeralPart, hc]

theorem covers_ofName (c : Char) (rest : List Char) : Covers (ofName c rest) (c :: rest) :=
  ⟨by simp [ofName, List.takeWhile_append_dropWhile], List.cons_ne_nil _ _⟩

theorem covers_ofWord (c : Char) (rest : List Char) : Covers (ofWord c rest) (c :: rest) := by
  unfold ofWord
  split
  · next hc => exact covers_ofNumeral hc rest
  · split
    · exact covers_ofName c rest
    · exact covers_refused c _ rest

/-- The lexeme at the head of a text **covers** it. -/
theorem covers_ofHead (c : Char) (rest : List Char) : Covers (ofHead c rest) (c :: rest) := by
  unfold ofHead
  split <;> simp only [covers_single, covers_refused, covers_pair, covers_doubled,
    covers_ofQuotation, covers_ofWord]

/-- The text behind a lexeme is shorter than the text. -/
theorem length_rest_lt (c : Char) (rest : List Char) :
    (ofHead c rest).rest.length < (c :: rest).length := by
  obtain ⟨happend, hne⟩ := covers_ofHead c rest
  have hlength := congrArg List.length happend
  have hpos := List.length_pos_iff.2 hne
  simp only [List.length_append] at hlength
  omega

end Lexeme

end GridFormula
