import GridFormula.Proofs.Traps
import GridFormula.TokenStream

/-!
# Reading tokens at a position

The tokens of a text, read by a program that holds a byte position and slices the text there for
each character. Whatever a token is made of is sliced out of the text again, from where the token
starts to where the program stands.

The invariant is that the program stands where a character begins. It only ever moves over the
character that it has just seen, so the invariant is kept, no slice traps, and a token is the lexeme
at the head of the text from there on.

## Main definitions

* `Cursor.peek`, `Cursor.bump`, `Cursor.consumeWhile`: the steps of the program.
* `Cursor.Rule`: what the first character of a token says about the rest of it.
* `Cursor.nextToken`: the next token and its span.
* `TokenStream.look`: the token at the head of a stream.

## Main results

* `Cursor.lexeme_eq`: a token is read without a trap, and is the lexeme.
* `Cursor.nextToken_eq`: the next token is the one at the head of the stream of tokens.
-/

namespace GridFormula

open Text (byteLength isBlank)
open Checked (loop sliceFrom slice)

/-- The token that a program sees next, if the text goes on, and its span. -/
structure Ahead where
  /-- The token. At the end of the text there is none. -/
  token : Option Token
  /-- The bytes that it takes. -/
  span : Span

namespace Cursor

/-! ### Steps -/

/-- The next character. -/
def peek (input : List Char) (position : Nat) : Checked (Option Char) := do
  return (← sliceFrom input position).head?

/-- The next character and the position behind it. -/
def bump (input : List Char) (position : Nat) : Checked (Option Char × Nat) := do
  match ← peek input position with
  | none => pure (none, position)
  | some c => pure (some c, position + c.utf8Size)

/-- One round of going over the characters of a class. -/
def consumeRound (p : Char → Bool) (input : List Char) (position : Nat) :
    Checked (Nat ⊕ Nat) := do
  match ← peek input position with
  | none => pure (.inr position)
  | some c =>
    if p c then
      let (_, behind) ← bump input position
      pure (.inl behind)
    else pure (.inr position)

/-- The next characters of a class and the position behind them. -/
def consumeWhile (p : Char → Bool) (input : List Char) (position : Nat) :
    Checked (List Char × Nat) := do
  let stop ← loop (byteLength input - ·) (consumeRound p input) position
  return (← slice input position stop, stop)

/-- What the program has read: a token or what is wrong, and the position behind it. -/
abbrev Taken := Except SyntaxFault Token × Nat

/-! ### Parts of a token -/

/-- A sign that is another one when `second` follows. -/
def pair (second : Char) (double token : Token) (input : List Char) (position : Nat) :
    Checked Taken := do
  if (← peek input position) = some second then
    let (_, behind) ← bump input position
    pure (.ok double, behind)
  else pure (.ok token, position)

/-- A sign that is one only when `second` follows. -/
def doubled (second : Char) (token : Token) (fault : SyntaxFault) (input : List Char)
    (position : Nat) : Checked Taken := do
  let (c, behind) ← bump input position
  pure (if c = some second then .ok token else .error fault, behind)

/-- One round of reading a quotation: the position, and what the quotation has said so far. -/
def quotedRound (mark : Char) (read : String → Token) (input : List Char) (s : Nat × List Char) :
    Checked ((Nat × List Char) ⊕ Taken) := do
  match ← bump input s.1 with
  | (none, position) => pure (.inr (.error .unterminatedString, position))
  | (some c, position) =>
    if c = mark then pure (.inr (.ok (read (String.ofList s.2)), position))
    else if c = '\\' then
      match ← bump input position with
      | (none, position) => pure (.inr (.error .unterminatedString, position))
      | (some d, position) => pure (.inl (position, s.2 ++ [Lexeme.unescaped d]))
    else pure (.inl (position, s.2 ++ [c]))

/-- A quotation from behind its opening mark on. -/
def quoted (mark : Char) (read : String → Token) (input : List Char) (position : Nat) :
    Checked Taken :=
  loop (byteLength input - ·.1) (quotedRound mark read input) (position, [])

/-- The numeral between two positions. -/
def numeralBetween (input : List Char) (start stop : Nat) : Checked Taken := do
  let source ← slice input start stop
  match Magnitude.ofNumeral? source with
  | some m => pure (.ok (.number (.signed false m)), stop)
  | none => pure (.error (.invalidNumber (String.ofList source)), stop)

/-- The position behind the sign of an exponent, if there is one. -/
def skipSign (input : List Char) (position : Nat) : Checked Nat := do
  let sign ← peek input position
  if sign = some '+' ∨ sign = some '-' then
    let (_, behind) ← bump input position
    pure behind
  else pure position

/-- A numeral from byte `start` on, of which the program has taken what stands before its exponent.
-/
def numeralFrom (input : List Char) (start position : Nat) : Checked Taken := do
  let letter ← peek input position
  if letter = some 'e' ∨ letter = some 'E' then
    let (_, behind) ← bump input position
    let behind ← skipSign input behind
    let (digits, stop) ← consumeWhile Char.isDigit input behind
    if digits.isEmpty then pure (.error .expectedExponentDigits, stop)
    else numeralBetween input start stop
  else numeralBetween input start position

/-- A numeral from byte `start` on, of which the program has taken the first digit. -/
def numeral (input : List Char) (start position : Nat) : Checked Taken := do
  let (_, behind) ← consumeWhile Lexeme.isNumeralPart input position
  numeralFrom input start behind

/-- A name from byte `start` on, of which the program has taken the first character. -/
def name (input : List Char) (start position : Nat) : Checked Taken := do
  let (_, stop) ← consumeWhile Lexeme.isNamePart input position
  let source ← slice input start stop
  pure (.ok (.name (String.ofList source)), stop)

/-! ### Tokens -/

/-- What the first character of a token says **about the rest** of it. -/
inductive Rule where
  /-- There is no more to it. -/
  | single (token : Token)
  /-- It is another token with a second character. -/
  | pair (second : Char) (double token : Token)
  /-- It is a token only with a second character. -/
  | doubled (second : Char) (token : Token) (fault : SyntaxFault)
  /-- It is a quotation. -/
  | quotation (read : String → Token)
  /-- It is no token. -/
  | refused (fault : SyntaxFault)
  /-- It is a numeral or a name, or no token. -/
  | word

/-- The rule of a first character. -/
def Rule.of : Char → Rule
  | '(' => .single .roundOpen
  | ')' => .single .roundClose
  | '[' => .single .squareOpen
  | ']' => .single .squareClose
  | ',' => .single .comma
  | '.' => .single .dot
  | '#' => .single .hash
  | '+' => .single (.operator .add)
  | '-' => .single (.operator .subtract)
  | '*' => .single (.operator .multiply)
  | '/' => .single (.operator .divide)
  | '%' => .single (.operator .modulo)
  | '&' => .pair '&' (.operator .and) (.operator .concat)
  | '!' => .pair '=' (.operator .notEqual) .bang
  | '<' => .pair '=' (.operator .lessEqual) (.operator .less)
  | '>' => .pair '=' (.operator .greaterEqual) (.operator .greater)
  | '=' => .doubled '=' (.operator .equal) .expectedEqualsSign
  | '|' => .doubled '|' (.operator .or) .expectedBar
  | '"' => .quotation .text
  | '\'' => .quotation .field
  | '\x7b' => .refused .blockLiteral
  | _ => .word

/-- The token at byte `start`, whose first character `c` ends at `position`. -/
def lexeme (input : List Char) (start : Nat) (c : Char) (position : Nat) : Checked Taken :=
  match Rule.of c with
  | .single token => pure (.ok token, position)
  | .pair second double token => pair second double token input position
  | .doubled second token fault => doubled second token fault input position
  | .quotation read => quoted c read input position
  | .refused fault => pure (.error fault, position)
  | .word =>
    if c.isDigit then numeral input start position
    else if Lexeme.isNameStart c then name input start position
    else pure (.error (.unexpectedCharacter c), position)

/-- The **next token** from a position on. -/
def nextToken (input : List Char) (position : Nat) : Run Ahead := do
  let (_, start) ← consumeWhile isBlank input position
  match ← bump input start with
  | (none, _) => pure ⟨none, ⟨start, start⟩⟩
  | (some c, behind) =>
    match ← lexeme input start c behind with
    | (.ok token, stop) => pure ⟨some token, ⟨start, stop⟩⟩
    | (.error fault, stop) => throw (.badSyntax ⟨fault, ⟨start, stop⟩⟩)

/-! ### Steps without traps -/

section Steps

variable {input tail rest : List Char} {c : Char} {position : Nat}

theorem peek_eq (h : TailAt input position tail) : peek input position = .ok tail.head? := by
  rw [peek, h.sliceFrom]
  rfl

theorem bump_nil (h : TailAt input position []) : bump input position = .ok (none, position) := by
  rw [bump, peek_eq h]
  rfl

theorem bump_cons (h : TailAt input position (c :: rest)) :
    bump input position = .ok (some c, position + c.utf8Size) := by
  rw [bump, peek_eq h]
  rfl

/-- Going over a character leaves fewer bytes. -/
theorem left_lt (h : TailAt input position (c :: rest)) :
    byteLength input - (position + c.utf8Size) < byteLength input - position := by
  have hend := h.add_byteLength
  have hpos := c.utf8Size_pos
  rw [Text.byteLength_cons] at hend
  omega

theorem consumeLoop_eq (p : Char → Bool) (h : TailAt input position tail) :
    loop (byteLength input - ·) (consumeRound p input) position =
      .ok (position + byteLength (tail.takeWhile p)) := by
  induction tail generalizing position with
  | nil =>
    refine Checked.loop_of_done ?_
    rw [consumeRound, peek_eq h]
    rfl
  | cons c rest ih =>
    by_cases hc : p c = true
    · have hround : consumeRound p input position = .ok (.inl (position + c.utf8Size)) := by
        rw [consumeRound, peek_eq h]
        simp only [List.head?_cons, Checked.ok_bind]
        rw [if_pos hc, bump_cons h]
        rfl
      rw [Checked.loop_of_next hround (left_lt h), ih h.rest, List.takeWhile_cons_of_pos hc,
        Text.byteLength_cons, Nat.add_assoc]
    · have hround : consumeRound p input position = .ok (.inr position) := by
        rw [consumeRound, peek_eq h]
        exact if_neg hc
      rw [Checked.loop_of_done hround, List.takeWhile_cons_of_neg hc]
      rfl

theorem tailAt_dropWhile (p : Char → Bool) (h : TailAt input position tail) :
    TailAt input (position + byteLength (tail.takeWhile p)) (tail.dropWhile p) := by
  rw [← List.takeWhile_append_dropWhile (p := p) (l := tail)] at h
  exact h.append

theorem consumeWhile_eq (p : Char → Bool) (h : TailAt input position tail) :
    consumeWhile p input position =
      .ok (tail.takeWhile p, position + byteLength (tail.takeWhile p)) := by
  have happend := h
  rw [← List.takeWhile_append_dropWhile (p := p) (l := tail)] at happend
  rw [consumeWhile, consumeLoop_eq p h, Checked.ok_bind, happend.slice]
  rfl

end Steps

/-! ### Tokens without traps -/

section Tokens

variable {input rest : List Char} {c : Char} {start : Nat}

/-- What the program has read when it has read a lexeme that starts at byte `start`. -/
def taken (start : Nat) (lexeme : Lexeme) : Taken :=
  (lexeme.reading, start + byteLength lexeme.source)

theorem pair_eq (second : Char) (double token : Token) (h : TailAt input start (c :: rest)) :
    pair second double token input (start + c.utf8Size) =
      .ok (taken start (Lexeme.pair c second double token rest)) := by
  have hrest := h.rest
  rw [pair, peek_eq hrest, Checked.ok_bind]
  cases rest with
  | nil => rfl
  | cons d behind =>
    rw [Lexeme.pair, List.head?_cons]
    by_cases hd : d = second
    · rw [if_pos (congrArg some hd), bump_cons hrest, if_pos hd]
      exact congrArg (fun stop => Except.ok (Except.ok double, stop)) (Nat.add_assoc ..)
    · rw [if_neg (mt Option.some.inj hd), if_neg hd]
      rfl

theorem doubled_eq (second : Char) (token : Token) (fault : SyntaxFault)
    (h : TailAt input start (c :: rest)) :
    doubled second token fault input (start + c.utf8Size) =
      .ok (taken start (Lexeme.doubled c second token fault rest)) := by
  have hrest := h.rest
  rw [doubled]
  cases rest with
  | nil =>
    rw [bump_nil hrest]
    rfl
  | cons d behind =>
    rw [bump_cons hrest, Lexeme.doubled]
    simp only [Checked.ok_bind, Option.some.injEq]
    exact congrArg (fun stop => Except.ok (_, stop)) (Nat.add_assoc ..)

/-- One round at the end of the text. -/
theorem quotedRound_nil {mark : Char} {read : String → Token} {position : Nat}
    (h : TailAt input position []) (said : List Char) :
    quotedRound mark read input (position, said) =
      .ok (.inr (.error .unterminatedString, position)) := by
  rw [quotedRound, bump_nil h]
  rfl

theorem quotedRound_mark {mark : Char} {read : String → Token} {position : Nat}
    (h : TailAt input position (mark :: rest)) (said : List Char) :
    quotedRound mark read input (position, said) =
      .ok (.inr (.ok (read (String.ofList said)), position + mark.utf8Size)) := by
  rw [quotedRound, bump_cons h]
  exact if_pos rfl

theorem quotedRound_escape {mark d : Char} {read : String → Token} {position : Nat}
    (h : TailAt input position ('\\' :: d :: rest)) (hmark : '\\' ≠ mark) (said : List Char) :
    quotedRound mark read input (position, said) =
      .ok (.inl (position + Char.utf8Size '\\' + d.utf8Size, said ++ [Lexeme.unescaped d])) := by
  rw [quotedRound, bump_cons h, Checked.ok_bind]
  dsimp only
  rw [if_neg hmark, if_pos rfl, bump_cons h.rest]
  rfl

theorem quotedRound_open {mark : Char} {read : String → Token} {position : Nat}
    (h : TailAt input position ['\\']) (hmark : '\\' ≠ mark) (said : List Char) :
    quotedRound mark read input (position, said) =
      .ok (.inr (.error .unterminatedString, position + Char.utf8Size '\\')) := by
  rw [quotedRound, bump_cons h, Checked.ok_bind]
  dsimp only
  rw [if_neg hmark, if_pos rfl, bump_nil h.rest]
  rfl

theorem quotedRound_plain {mark : Char} {read : String → Token} {position : Nat}
    (h : TailAt input position (c :: rest)) (hmark : c ≠ mark) (hslash : c ≠ '\\')
    (said : List Char) :
    quotedRound mark read input (position, said) =
      .ok (.inl (position + c.utf8Size, said ++ [c])) := by
  rw [quotedRound, bump_cons h, Checked.ok_bind]
  dsimp only
  rw [if_neg hmark, if_neg hslash]
  rfl

/-- What a quotation is read as, when it goes on behind `said`. -/
def quotedAs (read : String → Token) (said : List Char) (q : Lexeme.Quotation) :
    Except SyntaxFault Token :=
  match q.content with
  | some content => .ok (read (String.ofList (said ++ content)))
  | none => .error .unterminatedString

theorem quotedAs_nil (read : String → Token) (said source rest : List Char) :
    quotedAs read said ⟨some [], source, rest⟩ = .ok (read (String.ofList said)) := by
  simp [quotedAs]

theorem quotedAs_push (read : String → Token) (said written : List Char) (d : Char)
    (q : Lexeme.Quotation) :
    quotedAs read said (q.push written d) = quotedAs read (said ++ [d]) q := by
  unfold quotedAs Lexeme.Quotation.push
  cases q.content with
  | none => rfl
  | some content => simp

theorem quotedLoop_eq {mark : Char} {read : String → Token} {position : Nat}
    (h : TailAt input position rest) (said : List Char) :
    loop (byteLength input - ·.1) (quotedRound mark read input) (position, said) =
      .ok (quotedAs read said (Lexeme.quotation mark rest),
        position + byteLength (Lexeme.quotation mark rest).source) := by
  fun_induction Lexeme.quotation mark rest generalizing position said with
  | case1 => exact Checked.loop_of_done (quotedRound_nil h said)
  | case2 =>
    rw [Checked.loop_of_done (quotedRound_mark h said), quotedAs_nil]
    rfl
  | case3 c hmark =>
    by_cases hslash : c = '\\'
    · subst hslash
      exact Checked.loop_of_done (quotedRound_open h hmark said)
    · rw [Checked.loop_of_next (quotedRound_plain h hmark hslash said) (left_lt h)]
      exact Checked.loop_of_done (quotedRound_nil h.rest _)
  | case4 d rest =>
    rw [Checked.loop_of_done (quotedRound_mark h said), quotedAs_nil]
    rfl
  | case5 d rest hmark ih =>
    have hlt := Nat.lt_trans (left_lt h.rest) (left_lt h)
    rw [Checked.loop_of_next (quotedRound_escape h hmark said) hlt, ih h.rest.rest, quotedAs_push]
    simp only [Lexeme.Quotation.push, Text.byteLength_append, Text.byteLength_cons,
      Text.byteLength_nil, Nat.add_assoc, Nat.zero_add]
  | case6 c d rest hmark hslash ih =>
    rw [Checked.loop_of_next (quotedRound_plain h hmark hslash said) (left_lt h), ih h.rest,
      quotedAs_push]
    simp only [Lexeme.Quotation.push, Text.byteLength_append, Text.byteLength_cons,
      Text.byteLength_nil, Nat.add_assoc, Nat.zero_add]

theorem quoted_eq {mark : Char} (read : String → Token) (h : TailAt input start (mark :: rest)) :
    quoted mark read input (start + mark.utf8Size) =
      .ok (taken start (Lexeme.ofQuotation mark read rest)) := by
  rw [quoted, quotedLoop_eq h.rest, Lexeme.ofQuotation, quotedAs]
  cases (Lexeme.quotation mark rest).content with
  | none => exact congrArg (fun stop => Except.ok (Except.error _, stop)) (Nat.add_assoc ..)
  | some content => exact congrArg (fun stop => Except.ok (Except.ok _, stop)) (Nat.add_assoc ..)

theorem name_eq (h : TailAt input start (c :: rest)) :
    name input start (start + c.utf8Size) = .ok (taken start (Lexeme.ofName c rest)) := by
  have hbytes : start + c.utf8Size + byteLength (rest.takeWhile Lexeme.isNamePart) =
      start + byteLength (c :: rest.takeWhile Lexeme.isNamePart) := Nat.add_assoc ..
  have happend := h
  rw [← List.takeWhile_append_dropWhile (p := Lexeme.isNamePart) (l := rest), ← List.cons_append]
    at happend
  rw [name, consumeWhile_eq _ h.rest, Checked.ok_bind]
  dsimp only
  rw [hbytes, happend.slice]
  rfl

/-! ### Numerals -/

/-- What a numeral is read as. -/
def numeralAs (source : List Char) : Except SyntaxFault Token :=
  match Magnitude.ofNumeral? source with
  | some m => .ok (.number (.signed false m))
  | none => .error (.invalidNumber (String.ofList source))

theorem numeralBetween_eq {source behind : List Char} (h : TailAt input start (source ++ behind)) :
    numeralBetween input start (start + byteLength source) =
      .ok (numeralAs source, start + byteLength source) := by
  rw [numeralBetween, h.slice, Checked.ok_bind, numeralAs]
  cases Magnitude.ofNumeral? source <;> rfl

theorem exponentSign_append (text : List Char) :
    (Lexeme.exponentSign text).1 ++ (Lexeme.exponentSign text).2 = text := by
  unfold Lexeme.exponentSign
  split <;> rfl

theorem skipSign_eq {position : Nat} (h : TailAt input position rest) :
    skipSign input position = .ok (position + byteLength (Lexeme.exponentSign rest).1) := by
  rw [skipSign, peek_eq h, Checked.ok_bind]
  fun_cases Lexeme.exponentSign rest with
  | case1 behind =>
    rw [if_pos (.inl rfl), bump_cons h]
    rfl
  | case2 behind =>
    rw [if_pos (.inr rfl), bump_cons h]
    rfl
  | case3 _ hplus hminus =>
    refine if_neg ?_
    rintro (hsign | hsign)
    · obtain ⟨behind, rfl⟩ := List.head?_eq_some_iff.1 hsign
      exact hplus behind rfl
    · obtain ⟨behind, rfl⟩ := List.head?_eq_some_iff.1 hsign
      exact hminus behind rfl

/-- An exponent is complete when it has digits. -/
theorem exponentComplete_eq {letter : Char} (hletter : letter = 'e' ∨ letter = 'E')
    (text : List Char) {digits : List Char} (hdigits : ∀ d ∈ digits, d.isDigit = true) :
    Lexeme.exponentComplete (letter :: ((Lexeme.exponentSign text).1 ++ digits)) =
      !digits.isEmpty := by
  cases hlast : digits.getLast? with
  | none =>
    obtain rfl := List.getLast?_eq_none_iff.1 hlast
    unfold Lexeme.exponentSign
    rcases hletter with rfl | rfl <;> split <;> rfl
  | some d =>
    have hdigit := hdigits d (List.mem_of_getLast? hlast)
    cases digits with
    | nil => cases hlast
    | cons first others => simp [Lexeme.exponentComplete, List.getLast?_cons, hlast, hdigit]

/-- The exponent of a numeral, by the text behind its mantissa. -/
theorem numeralFrom_eq {mantissa tail : List Char} (h : TailAt input start (mantissa ++ tail)) :
    numeralFrom input start (start + byteLength mantissa) =
      .ok (if Lexeme.exponentComplete (Lexeme.exponent tail).1 then
          numeralAs (mantissa ++ (Lexeme.exponent tail).1) else .error .expectedExponentDigits,
        start + byteLength (mantissa ++ (Lexeme.exponent tail).1)) := by
  have htail := h.append
  rw [numeralFrom, peek_eq htail, Checked.ok_bind]
  cases tail with
  | nil =>
    rw [List.head?_nil, if_neg (by simp), Lexeme.exponent, List.append_nil]
    exact numeralBetween_eq h
  | cons letter behind =>
    rw [List.head?_cons, Lexeme.exponent]
    simp only [Option.some.injEq, Bool.or_eq_true, decide_eq_true_eq]
    split
    · next hletter =>
      have hsign := exponentSign_append behind
      have hdigit : ∀ d ∈ (Lexeme.exponentSign behind).2.takeWhile Char.isDigit, d.isDigit = true :=
        fun d hd => List.mem_takeWhile_imp hd
      have hcomplete := exponentComplete_eq hletter behind hdigit
      have hdigits := htail.rest
      rw [← hsign] at hdigits
      rw [bump_cons htail, Checked.ok_bind]
      dsimp only
      rw [skipSign_eq htail.rest, Checked.ok_bind, consumeWhile_eq _ hdigits.append,
        Checked.ok_bind]
      dsimp only
      rw [hcomplete]
      rw [← hsign, ← List.takeWhile_append_dropWhile (p := Char.isDigit)
        (l := (Lexeme.exponentSign behind).2), ← List.append_assoc, ← List.cons_append,
        ← List.append_assoc] at h
      generalize (Lexeme.exponentSign behind).2.takeWhile Char.isDigit = digits at *
      generalize (Lexeme.exponentSign behind).1 = sign at *
      have hstop : start + byteLength mantissa + letter.utf8Size + byteLength sign +
          byteLength digits = start + byteLength (mantissa ++ letter :: (sign ++ digits)) := by
        simp only [Text.byteLength_append, Text.byteLength_cons, Nat.add_assoc]
      rw [hstop]
      cases hempty : digits.isEmpty with
      | true => rfl
      | false => exact numeralBetween_eq h
    · rw [List.append_nil]
      exact numeralBetween_eq h

theorem numeral_eq (hc : c.isDigit = true) (h : TailAt input start (c :: rest)) :
    numeral input start (start + c.utf8Size) =
      .ok (taken start (Lexeme.ofNumeral (c :: rest))) := by
  have hpart : Lexeme.isNumeralPart c = true := by simp [Lexeme.isNumeralPart, hc]
  have hmantissa : start + c.utf8Size + byteLength (rest.takeWhile Lexeme.isNumeralPart) =
      start + byteLength (c :: rest.takeWhile Lexeme.isNumeralPart) := Nat.add_assoc ..
  have happend := h
  rw [← List.takeWhile_append_dropWhile (p := Lexeme.isNumeralPart) (l := rest),
    ← List.cons_append] at happend
  rw [numeral, consumeWhile_eq _ h.rest, Checked.ok_bind]
  dsimp only
  rw [hmantissa, numeralFrom_eq happend, Lexeme.ofNumeral, List.takeWhile_cons_of_pos hpart,
    List.dropWhile_cons_of_pos hpart]
  rfl

/-! ### Lexemes -/

/-- The lexeme that a rule makes of a first character and the text behind it. -/
def Rule.lexeme (c : Char) (rest : List Char) : Rule → Lexeme
  | .single token => Lexeme.single c token rest
  | .pair second double token => Lexeme.pair c second double token rest
  | .doubled second token fault => Lexeme.doubled c second token fault rest
  | .quotation read => Lexeme.ofQuotation c read rest
  | .refused fault => Lexeme.refused c fault rest
  | .word => Lexeme.ofWord c rest

theorem lexeme_of (c : Char) (rest : List Char) :
    (Rule.of c).lexeme c rest = Lexeme.ofHead c rest := by
  unfold Rule.of
  split
  case h_22 =>
    symm
    unfold Lexeme.ofHead
    split <;> first | contradiction | rfl
  all_goals rfl

/-- A token is read **without a trap**, and is the lexeme at the head of the text. -/
theorem lexeme_eq (h : TailAt input start (c :: rest)) :
    lexeme input start c (start + c.utf8Size) = .ok (taken start (Lexeme.ofHead c rest)) := by
  rw [← lexeme_of, lexeme]
  cases Rule.of c with
  | single token => rfl
  | pair second double token => exact pair_eq second double token h
  | doubled second token fault => exact doubled_eq second token fault h
  | quotation read => exact quoted_eq read h
  | refused fault => rfl
  | word =>
    rw [Rule.lexeme, Lexeme.ofWord]
    dsimp only
    split
    · next hdigit => exact numeral_eq hdigit h
    · split
      · exact name_eq h
      · rfl

end Tokens

end Cursor

/-! ### Streams -/

namespace TokenStream

/-- The **token at the head** of a stream, as a program sees it next. A lexeme that is no token is
refused. -/
def look : TokenStream → Except Error Ahead
  | .finish position => .ok ⟨none, ⟨position, position⟩⟩
  | .broken error => .error (.badSyntax error)
  | .token t span _ => .ok ⟨some t, span⟩
  | .call name span _ _ _ | .openCall name span _ _ => .ok ⟨some (.name name), span⟩

end TokenStream

namespace Cursor

/-- The next token is the one **at the head of the stream** of tokens. -/
theorem nextToken_eq {input tail : List Char} {position : Nat} (h : TailAt input position tail) :
    nextToken input position = Run.answer (TokenStream.ofTextAt position tail).look := by
  have hstart := tailAt_dropWhile isBlank h
  rw [nextToken, consumeWhile_eq isBlank h]
  unfold TokenStream.ofTextAt
  simp only [Run.lift_ok, Run.answer_ok_bind]
  split
  · next htext =>
    rw [htext] at hstart
    rw [bump_nil hstart]
    rfl
  · next c behind htext =>
    rw [htext] at hstart
    rw [bump_cons hstart]
    simp only [Run.lift_ok, Run.answer_ok_bind]
    rw [lexeme_eq hstart, taken]
    simp only [Run.lift_ok, Run.answer_ok_bind]
    cases hreading : (Lexeme.ofHead c behind).reading with
    | error fault => rfl
    | ok token =>
      cases token with
      | name n =>
        dsimp only
        split
        · rfl
        · split <;> rfl
      | _ => rfl

end Cursor

end GridFormula
