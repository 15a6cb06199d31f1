import GridFormula.Lexeme
import GridFormula.Scan.Match
import GridFormula.Text.Blank
import GridFormula.Text.Utf8

/-!
# Token streams

The tokens of a formula in a row, each with its span, up to the end of the text or to the first
lexeme that is no token. Blanks between tokens leave no trace.

A name with an opening parenthesis behind it begins a call. Its argument text, which has a grammar
of its own, is not read as tokens: the parenthesis that closes the call is found by scanning, and
the stream continues behind it.

## Main definitions

* `TokenStream`: the streams.
* `TokenStream.ofText`: the stream of a text.
* `TokenStream.size`: the number of items in a stream.
-/

namespace GridFormula

open Text (byteLength isBlank)

/-- A **stream** of tokens. -/
inductive TokenStream where
  /-- The end of the text, at a byte position. -/
  | finish (position : Nat)
  /-- A lexeme that is no token. -/
  | broken (error : SyntaxError)
  /-- A token and the stream behind it. -/
  | token (token : Token) (span : Span) (rest : TokenStream)
  /-- A name and the text between the parentheses behind it, the first of which stands at byte
  `opening`. -/
  | call (name : String) (span : Span) (opening : Nat) (arguments : List Char)
    (rest : TokenStream)
  /-- A name with a parenthesis behind it that is never closed, though the text goes on to byte
  `stop`. -/
  | openCall (name : String) (span : Span) (opening stop : Nat)

namespace TokenStream

/-- The text behind an opening parenthesis that follows `text`'s blanks, and the byte position of
the parenthesis when `text` starts at `position`. -/
def callOpening? (position : Nat) (text : List Char) : Option (Nat × List Char) :=
  match text.dropWhile isBlank with
  | '(' :: behind => some (position + byteLength (text.takeWhile isBlank), behind)
  | _ => none

theorem length_lt_of_callOpening? {position opening : Nat} {text behind : List Char}
    (h : callOpening? position text = some (opening, behind)) : behind.length < text.length := by
  unfold callOpening? at h
  split at h
  · next rest heq =>
    have hle := (List.dropWhile_sublist isBlank (l := text)).length_le
    simp only [Option.some.injEq, Prod.mk.injEq] at h
    obtain ⟨-, rfl⟩ := h
    rw [heq] at hle
    simp only [List.length_cons] at hle
    omega
  · cases h

theorem length_lt_of_splitAtCloser {bracket : Bracket} {text before behind : List Char}
    (h : Scan.splitAtCloser bracket text = some (before, behind)) :
    behind.length < text.length := by
  obtain ⟨c, rfl⟩ := Scan.eq_of_splitAtTop h
  simp only [List.length_append, List.length_cons]
  omega

theorem length_lt_of_lexeme {text behind : List Char} {c : Char}
    (h : text.dropWhile isBlank = c :: behind) :
    (Lexeme.ofHead c behind).rest.length < text.length := by
  have hle := (List.dropWhile_sublist isBlank (l := text)).length_le
  have hlt := Lexeme.length_rest_lt c behind
  rw [h] at hle
  omega

/-- The stream of a text that starts at byte `position`. -/
def ofTextAt (position : Nat) (text : List Char) : TokenStream :=
  let start := position + byteLength (text.takeWhile isBlank)
  match _htext : text.dropWhile isBlank with
  | [] => .finish start
  | c :: behind =>
    let lexeme := Lexeme.ofHead c behind
    let stop := start + byteLength lexeme.source
    match lexeme.reading with
    | .error fault => .broken ⟨fault, ⟨start, stop⟩⟩
    | .ok (.name name) =>
      match _hopening : callOpening? stop lexeme.rest with
      | none => .token (.name name) ⟨start, stop⟩ (ofTextAt stop lexeme.rest)
      | some (opening, inside) =>
        match _hsplit : Scan.splitAtCloser .round inside with
        | none => .openCall name ⟨start, stop⟩ opening (opening + 1 + byteLength inside)
        | some (arguments, outside) =>
          .call name ⟨start, stop⟩ opening arguments
            (ofTextAt (opening + 1 + byteLength arguments + 1) outside)
    | .ok t => .token t ⟨start, stop⟩ (ofTextAt stop lexeme.rest)
termination_by text.length
decreasing_by
  · exact length_lt_of_lexeme _htext
  · exact Nat.lt_trans (length_lt_of_splitAtCloser _hsplit)
      (Nat.lt_trans (length_lt_of_callOpening? _hopening) (length_lt_of_lexeme _htext))
  · exact length_lt_of_lexeme _htext

/-- The **stream of a text**. -/
def ofText (text : List Char) : TokenStream := ofTextAt 0 text

/-- The number of tokens and calls in a stream. -/
def size : TokenStream → Nat
  | .finish _ | .broken _ => 0
  | .openCall .. => 1
  | .token _ _ rest => rest.size + 1
  | .call _ _ _ _ rest => rest.size + 1

end TokenStream

end GridFormula
