import GridFormula.Proofs.Balance
import GridFormula.Proofs.ByteScan
import GridFormula.Proofs.Cursor

/-!
# Streams and positions

A stream of tokens is a view of the rest of a text. A program that has no stream holds the token
that it sees next, and the position behind it; where a call begins it looks for the closing
parenthesis, slices the argument text out, and goes on reading behind the parenthesis.

A stream is lexed off a text when each of these steps is without a trap and leads from each item of
the stream to the one behind it. This holds of the stream of any text, from any position on at which
a character begins. Every item takes some of the text, and the items stand in it one after the
other.

## Main definitions

* `TokenStream.Lexed`: the streams that a program can go along without a trap.
* `TokenStream.start`: the position at which a stream begins.

## Main results

* `TokenStream.lexed_ofTextAt`: the stream of a text is lexed off it.
* `TokenStream.Lexed.of_takes`: what is left of a lexed stream is lexed, and begins further on.
-/

namespace GridFormula

open Text (byteLength isBlank allBlank utf8Bytes)
open Cursor (nextToken)
open Run (answer)

namespace TokenStream

/-- The byte position at which a stream **begins**. -/
def start : TokenStream → Nat
  | .finish position => position
  | .broken error => error.span.start
  | .token _ span _ | .call _ span _ _ _ | .openCall _ span _ _ => span.start

@[simp] theorem start_token (t : Token) (span : Span) (rest : TokenStream) :
    (TokenStream.token t span rest).start = span.start := rfl

@[simp] theorem start_call (name : String) (span : Span) (opening : Nat) (arguments : List Char)
    (rest : TokenStream) : (TokenStream.call name span opening arguments rest).start = span.start :=
  rfl

/-- The parenthesis that opens a call at byte `opening`, as a program sees it. -/
def openingAt (opening : Nat) : Ahead := ⟨some .roundOpen, ⟨opening, opening + 1⟩⟩

@[simp] theorem token_openingAt (opening : Nat) : (openingAt opening).token = some .roundOpen := rfl

/-- Where an item stands in a text, in front of the stream behind it. -/
structure Within (input : List Char) (span : Span) (rest : TokenStream) : Prop where
  /-- The item takes some bytes. -/
  start_lt : span.start < span.stop
  /-- It ends before what is behind it begins. -/
  stop_le : span.stop ≤ rest.start
  /-- It ends in the text. -/
  stop_le_length : span.stop ≤ byteLength input

/-- A stream is **lexed** off a text when reading a token behind each of its items gives the next
one, and the arguments of its calls are sliced out between their parentheses. -/
inductive Lexed (input : List Char) : TokenStream → Prop
  /-- The end of the text, behind which there is nothing. -/
  | finish {position : Nat} :
      nextToken input position = answer (TokenStream.finish position).look →
        Lexed input (.finish position)
  /-- A lexeme that is no token. -/
  | broken {error : SyntaxError} : Lexed input (.broken error)
  /-- A token that begins no call. -/
  | token {t : Token} {span : Span} {rest : TokenStream} : Within input span rest →
      (t.isName = true → ∀ ahead, rest.look = .ok ahead → ahead.token ≠ some .roundOpen) →
      nextToken input span.stop = answer rest.look →
        Lexed input rest → Lexed input (.token t span rest)
  /-- A call. -/
  | call {name : String} {span : Span} {opening : Nat} {arguments : List Char}
      {rest : TokenStream} :
      Within input span rest →
      nextToken input span.stop = answer (.ok (openingAt opening)) →
      Scan.bracketEnd (utf8Bytes input) .round opening =
        .ok (some (opening + 1 + byteLength arguments)) →
      Checked.slice input (opening + 1) (opening + 1 + byteLength arguments) = .ok arguments →
      nextToken input (opening + 1 + byteLength arguments + 1) = answer rest.look →
        Lexed input rest → Lexed input (.call name span opening arguments rest)
  /-- A call that is never closed. -/
  | openCall {name : String} {span : Span} {opening : Nat} :
      nextToken input span.stop = answer (.ok (openingAt opening)) →
      Scan.bracketEnd (utf8Bytes input) .round opening = .ok none →
        Lexed input (.openCall name span opening (byteLength input))

/-! ### Streams of texts -/

theorem start_ofLexeme (position : Nat) (lexeme : Lexeme) :
    (ofLexeme position lexeme).start = position := by
  unfold ofLexeme
  dsimp only
  split
  · rfl
  · split
    · rfl
    · split <;> rfl
  · rfl

theorem le_start_ofTextAt (position : Nat) (text : List Char) :
    position ≤ (ofTextAt position text).start := by
  rcases Text.exists_blanks_append text with hblank | ⟨blanks, c, rest, rfl, hblanks, hc⟩
  · rw [ofTextAt_of_allBlank _ hblank]
    exact Nat.le_add_right ..
  · rw [ofTextAt_cons _ hblanks hc, start_ofLexeme]
    exact Nat.le_add_right ..

theorem look_ofLexeme (position : Nat) (lexeme : Lexeme) : (ofLexeme position lexeme).look =
    match lexeme.reading with
    | .ok t => .ok ⟨some t, ⟨position, position + byteLength lexeme.source⟩⟩
    | .error fault =>
      .error (.badSyntax ⟨fault, ⟨position, position + byteLength lexeme.source⟩⟩) := by
  unfold ofLexeme
  dsimp only
  split
  · next hread => rw [hread]; rfl
  · next hread =>
    rw [hread]
    split
    · rfl
    · split <;> rfl
  · next hread => rw [hread]; rfl

/-- Where no call begins, the next token is no opening parenthesis. -/
theorem look_ne_roundOpen {position : Nat} {text : List Char} (h : NoCall text) {ahead : Ahead}
    (hlook : (ofTextAt position text).look = .ok ahead) : ahead.token ≠ some .roundOpen := by
  rcases Text.exists_blanks_append text with hblank | ⟨blanks, c, rest, rfl, hblanks, hc⟩
  · rw [ofTextAt_of_allBlank _ hblank] at hlook
    cases hlook
    rintro ⟨⟩
  · rw [ofTextAt_cons _ hblanks hc, look_ofLexeme] at hlook
    split at hlook
    · next t hread =>
      cases hlook
      rintro heq
      obtain rfl := Option.some.inj heq
      obtain ⟨source, behind, hsource, -, hword⟩ := word_of_reading hc hread
      obtain rfl : source = ['('] :=
        Lexeme.source_of_bracket (Lexeme.made_of_word hword) (by decide) rfl
      obtain ⟨rfl, -⟩ := List.cons.inj hsource
      exact h rest (Text.dropWhile_blanks_append hblanks hc rest)
    · cases hlook

/-- The opening parenthesis of a call is the next token behind the name. -/
theorem look_gap {gap : List Char} (hgap : allBlank gap = true) (position : Nat)
    (inside : List Char) : (ofTextAt position (gap ++ '(' :: inside)).look =
      .ok (openingAt (position + byteLength gap)) := by
  rw [ofTextAt_cons _ hgap (by decide), look_ofLexeme]
  rfl

section OfLexeme

variable {input source : List Char} {position : Nat} (hne : source ≠ [])
include hne

/-- A lexeme stands in the text in front of what begins behind it. -/
theorem within_of_tailAt {behind : List Char} (h : TailAt input position (source ++ behind))
    {rest : TokenStream} (hrest : position + byteLength source ≤ rest.start) :
    Within input ⟨position, position + byteLength source⟩ rest := by
  have hsource : 0 < byteLength source := by
    obtain ⟨d, others, rfl⟩ := List.exists_cons_of_ne_nil hne
    exact Nat.lt_of_lt_of_le d.utf8Size_pos (Nat.le_add_right ..)
  have hend := h.append.add_byteLength
  refine ⟨?_, hrest, ?_⟩ <;> dsimp only <;> omega

/-- A name and the parenthesis behind it are lexed off the text, as a call that ends where the scan
on characters cuts the text or as one that is never closed. -/
theorem lexed_opening {gap inside : List Char} {name : String} (hgap : allBlank gap = true)
    (h : TailAt input position (source ++ (gap ++ '(' :: inside)))
    (hrest : ∀ {position' outside}, outside.length ≤ inside.length →
      TailAt input position' outside → Lexed input (ofTextAt position' outside)) :
    Lexed input (ofLexeme position ⟨source, .ok (.name name), gap ++ '(' :: inside⟩) := by
  have hnext := Cursor.nextToken_eq h.append
  have hparen : TailAt input _ ('(' :: inside) := h.append.append
  have hclose := @Scan.bracketEnd_of_tailAt input .round _ _ hparen
  have hinside := hparen.rest
  rw [look_gap hgap] at hnext
  simp only [ofLexeme, callOpening?_gap _ hgap]
  split
  · next hsplit =>
    rw [hsplit] at hclose
    have hend := hparen.add_byteLength
    have hsize : Char.utf8Size '(' = 1 := rfl
    rw [Text.byteLength_cons, hsize, ← Nat.add_assoc] at hend
    rw [hend]
    exact .openCall hnext hclose
  · next arguments outside hsplit =>
    rw [hsplit] at hclose
    obtain rfl : inside = arguments ++ ([')'] ++ outside) :=
      Scan.eq_append_closer_of_splitAtTop (g := ⟨.round, 0⟩) rfl hsplit
    have houtside := hinside.append.append
    refine .call (within_of_tailAt hne h ?_) hnext hclose hinside.slice
      (Cursor.nextToken_eq houtside) (hrest ?_ houtside)
    · exact Nat.le_trans (by omega) (le_start_ofTextAt ..)
    · simp only [List.length_append]
      omega

/-- What begins with a lexeme is lexed off the text when everything behind it is. -/
theorem lexed_ofLexeme {reading : Except SyntaxFault Token} {behind : List Char}
    (h : TailAt input position (source ++ behind))
    (hrest : ∀ {position' outside}, outside.length ≤ behind.length →
      TailAt input position' outside → Lexed input (ofTextAt position' outside)) :
    Lexed input (ofLexeme position ⟨source, reading, behind⟩) := by
  have hbehind := hrest (Nat.le_refl _) h.append
  have hnext := Cursor.nextToken_eq h.append
  have hwithin := within_of_tailAt hne h (le_start_ofTextAt _ behind)
  cases reading with
  | error => exact .broken
  | ok t =>
    cases t with
    | name name =>
      cases hopening : callOpening? (position + byteLength source) behind with
      | none =>
        simp only [ofLexeme, hopening]
        refine .token hwithin (fun _ ahead hlook => ?_) hnext hbehind
        exact look_ne_roundOpen ((callOpening?_eq_none_iff _ _).1 hopening) hlook
      | some opening =>
        obtain ⟨gap, hgap, rfl⟩ := exists_gap_of_callOpening? hopening
        refine lexed_opening hne hgap h fun hle => hrest (Nat.le_trans hle ?_)
        simp only [List.length_append, List.length_cons]
        omega
    | _ => exact .token hwithin (fun hname => by cases hname) hnext hbehind

end OfLexeme

/-- The stream of a text from a position on is **lexed** off the text. -/
theorem lexed_ofTextAt {input tail : List Char} {position : Nat} (h : TailAt input position tail) :
    Lexed input (ofTextAt position tail) := by
  induction hlength : tail.length using Nat.strongRecOn generalizing position tail with
  | ind length ih =>
    rcases Text.exists_blanks_append tail with hblank | ⟨blanks, c, rest, rfl, hblanks, hc⟩
    · have hend := h.add_byteLength
      have hnext := Cursor.nextToken_eq (TailAt.finish input)
      rw [ofTextAt_of_allBlank _ rfl, Text.byteLength_nil, Nat.add_zero] at hnext
      rw [ofTextAt_of_allBlank _ hblank, hend]
      exact .finish hnext
    · obtain ⟨happend, hne⟩ := Lexeme.covers_ofHead c rest
      have hshorter := Lexeme.length_rest_lt c rest
      have hlexeme := h.append
      rw [ofTextAt_cons _ hblanks hc]
      rw [List.length_append] at hlength
      generalize Lexeme.ofHead c rest = lexeme at *
      rw [← happend] at hlexeme
      exact lexed_ofLexeme hne hlexeme fun hle houtside => ih _ (by omega) houtside rfl

/-! ### Going along -/

theorem start_of_look {s : TokenStream} {ahead : Ahead} (h : s.look = .ok ahead) :
    ahead.span.start = s.start := by
  cases s <;> cases h <;> rfl

theorem eq_broken_of_look {s : TokenStream} {error : Error} (h : s.look = .error error) :
    ∃ e, s = .broken e ∧ error = .badSyntax e := by
  cases s <;> cases h
  exact ⟨_, rfl, rfl⟩

/-- A token that is no name is seen where it stands. -/
theorem eq_token_of_look {s : TokenStream} {ahead : Ahead} {t : Token} (h : s.look = .ok ahead)
    (ht : ahead.token = some t) (hname : t.isName = false) :
    ∃ rest, s = .token t ahead.span rest := by
  cases s with
  | token t span rest =>
    cases h
    cases ht
    exact ⟨rest, rfl⟩
  | finish =>
    cases h
    cases ht
  | broken => cases h
  | call | openCall =>
    cases h
    cases ht
    cases hname

/-- What is left of a lexed stream **is lexed**, and every item that was taken off takes a byte or
more. -/
theorem Lexed.of_takes {input : List Char} {s last : TokenStream} {items : List Item}
    (h : Lexed input s) (htakes : s.Takes items last) :
    Lexed input last ∧ s.start + items.length ≤ last.start := by
  induction htakes with
  | nil => exact ⟨h, Nat.le_refl _⟩
  | token _ ih =>
    cases h with
    | token hwithin _ _ hrest =>
      obtain ⟨hlast, hle⟩ := ih hrest
      obtain ⟨hlt, hstop, -⟩ := hwithin
      refine ⟨hlast, ?_⟩
      simp only [start_token, List.length_cons]
      omega
  | call _ ih =>
    cases h with
    | call hwithin _ _ _ _ hrest =>
      obtain ⟨hlast, hle⟩ := ih hrest
      obtain ⟨hlt, hstop, -⟩ := hwithin
      refine ⟨hlast, ?_⟩
      simp only [start_call, List.length_cons]
      omega

/-- The bytes that are left get **fewer** with every item that is taken off a stream. -/
theorem Lexed.left_lt {input : List Char} {s last : TokenStream} {items : List Item}
    (h : Lexed input s) (htakes : s.Takes items last) (hne : items ≠ []) :
    byteLength input - last.start < byteLength input - s.start := by
  obtain ⟨-, hle⟩ := h.of_takes htakes
  have hpos := List.length_pos_iff.2 hne
  have hlt : s.start < byteLength input := by
    cases htakes with
    | nil => exact absurd rfl hne
    | token =>
      cases h with
      | token hwithin => exact Nat.lt_of_lt_of_le hwithin.start_lt hwithin.stop_le_length
    | call =>
      cases h with
      | call hwithin => exact Nat.lt_of_lt_of_le hwithin.start_lt hwithin.stop_le_length
  omega

end TokenStream

end GridFormula
