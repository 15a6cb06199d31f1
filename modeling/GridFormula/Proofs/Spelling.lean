import GridFormula.Proofs.Words
import GridFormula.TokenStream

/-!
# Spelling

How a text spells a row of tokens and calls, said without byte positions and without running
through the text: blanks, a word, blanks, a word, and so on. What a word is depends on the text
behind it, because a lexeme takes as many characters as fit.

A token stream is read off its text from left to right. Taking items off the stream of a text and
spelling them at the head of the text are the same thing.

## Main definitions

* `Item`: a token, or a call with its argument text.
* `TokenStream.Takes`: the items at the head of a stream.
* `Spells`: characters that are read as a row of items in front of some text.
* `Spelled`: a whole text that is read as a row of items.

## Main results

* `TokenStream.spelled_iff_takes`: taking items off a stream and spelling them agree.
* `spelled_padded`: blanks at the ends of a text do not change what it spells.
-/

namespace GridFormula

open Text (byteLength isBlank allBlank)

/-- An **item** of a formula: a token, or a name with the text between the parentheses behind it. -/
inductive Item where
  /-- A token. -/
  | token (token : Token)
  /-- A call, with its argument text. -/
  | call (name : String) (arguments : List Char)

/-! ### Items of a stream -/

namespace TokenStream

/-- The items that are **taken** off the head of a stream to get at the stream behind them. -/
inductive Takes : TokenStream → List Item → TokenStream → Prop
  /-- Nothing is taken. -/
  | nil (s : TokenStream) : Takes s [] s
  /-- A token is taken, and more behind it. -/
  | token {t : Token} {span : Span} {rest last : TokenStream} {items : List Item} :
      Takes rest items last → Takes (.token t span rest) (.token t :: items) last
  /-- A call is taken, and more behind it. -/
  | call {name : String} {span : Span} {opening : Nat} {arguments : List Char}
      {rest last : TokenStream} {items : List Item} :
      Takes rest items last →
        Takes (.call name span opening arguments rest) (.call name arguments :: items) last

theorem Takes.append {s middle last : TokenStream} {first second : List Item}
    (hfirst : s.Takes first middle) (hsecond : middle.Takes second last) :
    s.Takes (first ++ second) last := by
  induction hfirst with
  | nil => exact hsecond
  | token _ ih => exact .token (ih hsecond)
  | call _ ih => exact .call (ih hsecond)

/-- What is taken can be taken in two parts. -/
theorem Takes.split {s last : TokenStream} {first second : List Item}
    (h : s.Takes (first ++ second) last) :
    ∃ middle, s.Takes first middle ∧ middle.Takes second last := by
  induction first generalizing s with
  | nil => exact ⟨s, .nil s, h⟩
  | cons item items ih =>
    cases h with
    | token h =>
      obtain ⟨middle, hfirst, hsecond⟩ := ih h
      exact ⟨middle, .token hfirst, hsecond⟩
    | call h =>
      obtain ⟨middle, hfirst, hsecond⟩ := ih h
      exact ⟨middle, .call hfirst, hsecond⟩

end TokenStream

/-! ### Rows of words -/

/-- Behind its blanks a text does not begin with an opening parenthesis. -/
def NoCall (text : List Char) : Prop :=
  ∀ rest, text.dropWhile isBlank ≠ '(' :: rest

/-- Whether a token is a name, which may begin a call. -/
def Token.isName : Token → Bool
  | .name _ => true
  | _ => false

theorem Token.ne_name {t : Token} (h : t.isName = false) (n : String) : t ≠ .name n := by
  rintro rfl
  cases h

/-- A token that is no name begins no call, whatever stands behind it. -/
theorem Token.noCall {t : Token} (h : t.isName = false) {behind : List Char} :
    ∀ n, t = .name n → NoCall behind :=
  fun n hn => absurd hn (ne_name h n)

/-- The characters of the second argument **spell** items in front of some text. -/
inductive Spells : List Item → List Char → List Char → Prop
  /-- No characters spell no items. -/
  | nil {behind : List Char} : Spells [] [] behind
  /-- A token is spelled by a word. A name must not begin a call. -/
  | token {blanks source text behind : List Char} {t : Token} {items : List Item} :
      allBlank blanks = true → Lexeme.Word source t (text ++ behind) →
      (∀ name, t = .name name → NoCall (text ++ behind)) → Spells items text behind →
        Spells (.token t :: items) (blanks ++ (source ++ text)) behind
  /-- A call is spelled by a name and its argument text between parentheses, of which the second
  is the one that the scan finds. -/
  | call {blanks source gap arguments text behind : List Char} {name : String}
      {items : List Item} :
      allBlank blanks = true → allBlank gap = true →
      Lexeme.Word source (.name name) (gap ++ '(' :: (arguments ++ ')' :: (text ++ behind))) →
      Scan.splitAtCloser .round (arguments ++ ')' :: (text ++ behind)) =
        some (arguments, text ++ behind) →
      Spells items text behind →
        Spells (.call name arguments :: items)
          (blanks ++ (source ++ (gap ++ '(' :: (arguments ++ ')' :: text)))) behind

theorem Spells.append {first second : List Item} {text text' behind : List Char}
    (hfirst : Spells first text (text' ++ behind)) (hsecond : Spells second text' behind) :
    Spells (first ++ second) (text ++ text') behind := by
  generalize hall : text' ++ behind = all at hfirst
  induction hfirst with
  | nil => exact hsecond
  | token hblanks hword hname _ ih =>
    subst hall
    rw [← List.append_assoc] at hword hname
    simp only [List.append_assoc, List.cons_append]
    exact .token hblanks (by simpa using hword) (by simpa using hname) (ih rfl)
  | call hblanks hgap hword hsplit _ ih =>
    subst hall
    simp only [List.append_assoc, List.cons_append]
    exact .call hblanks hgap (by simpa using hword) (by simpa using hsplit) (ih rfl)

/-- What spells two rows of items spells them one after the other. -/
theorem Spells.split {first second : List Item} {text behind : List Char}
    (h : Spells (first ++ second) text behind) :
    ∃ text' text'', text = text' ++ text'' ∧ Spells first text' (text'' ++ behind) ∧
      Spells second text'' behind := by
  induction first generalizing text with
  | nil => exact ⟨[], text, rfl, .nil, h⟩
  | cons item items ih =>
    cases h with
    | @token blanks source _ _ _ _ hblanks hword hname hspells =>
      obtain ⟨text', text'', rfl, hfirst, hsecond⟩ := ih hspells
      refine ⟨blanks ++ (source ++ text'), text'', by simp, ?_, hsecond⟩
      rw [List.append_assoc] at hword hname
      exact .token hblanks hword hname hfirst
    | @call blanks source gap arguments _ _ _ _ hblanks hgap hword hsplit hspells =>
      obtain ⟨text', text'', rfl, hfirst, hsecond⟩ := ih hspells
      refine ⟨blanks ++ (source ++ (gap ++ '(' :: (arguments ++ ')' :: text'))), text'',
        by simp, ?_, hsecond⟩
      rw [List.append_assoc] at hword hsplit
      exact .call hblanks hgap hword hsplit hfirst

/-- Items are **spelled** by a whole text, with blanks at its end. -/
def Spelled (text : List Char) (items : List Item) : Prop :=
  ∃ spelling blanks, text = spelling ++ blanks ∧ allBlank blanks = true ∧
    Spells items spelling blanks

/-! ### The stream of a text -/

namespace TokenStream

theorem ofTextAt_of_allBlank (position : Nat) {text : List Char} (h : allBlank text = true) :
    ofTextAt position text = .finish (position + byteLength text) := by
  rw [ofTextAt]
  split
  · rw [Text.takeWhile_of_allBlank h]
  · next heq =>
    rw [Text.dropWhile_of_allBlank h] at heq
    cases heq

/-- The stream of a text whose first lexeme begins at a position. -/
def ofLexeme (start : Nat) (lexeme : Lexeme) : TokenStream :=
  let stop := start + byteLength lexeme.source
  match lexeme.reading with
  | .error fault => .broken ⟨fault, ⟨start, stop⟩⟩
  | .ok (.name name) =>
    match callOpening? stop lexeme.rest with
    | none => .token (.name name) ⟨start, stop⟩ (ofTextAt stop lexeme.rest)
    | some (opening, inside) =>
      match Scan.splitAtCloser .round inside with
      | none => .openCall name ⟨start, stop⟩ opening (opening + 1 + byteLength inside)
      | some (arguments, outside) =>
        .call name ⟨start, stop⟩ opening arguments
          (ofTextAt (opening + 1 + byteLength arguments + 1) outside)
  | .ok t => .token t ⟨start, stop⟩ (ofTextAt stop lexeme.rest)

/-- A text that begins with a character other than a blank, behind some blanks, is read from the
lexeme that character begins. -/
theorem ofTextAt_cons (position : Nat) {blanks : List Char} (hblanks : allBlank blanks = true)
    {c : Char} (hc : isBlank c = false) (rest : List Char) :
    ofTextAt position (blanks ++ c :: rest) =
      ofLexeme (position + byteLength blanks) (Lexeme.ofHead c rest) := by
  have htake := Text.takeWhile_blanks_append hblanks hc rest
  have hdrop := Text.dropWhile_blanks_append hblanks hc rest
  rw [ofTextAt]
  split
  · next heq =>
    rw [hdrop] at heq
    cases heq
  · next d behind heq =>
    rw [hdrop] at heq
    cases heq
    rw [htake]
    dsimp only
    split
    · next hread => simp only [ofLexeme, hread]
    · next name hread =>
      simp only [ofLexeme, hread]
      split
      · next hopening => simp only [hopening]
      · next hopening =>
        simp only [hopening]
        split <;> next hsplit => simp only [hsplit]
    · next t hname hread => simp only [ofLexeme, hread]

/-- Leading blanks only move the stream. -/
theorem ofTextAt_blanks_append {blanks : List Char} (h : allBlank blanks = true)
    (position : Nat) (text : List Char) :
    ofTextAt position (blanks ++ text) = ofTextAt (position + byteLength blanks) text := by
  rcases Text.exists_blanks_append text with hblank | ⟨first, c, rest, rfl, hfirst, hc⟩
  · have hboth : allBlank (blanks ++ text) = true := by
      simp only [allBlank, List.all_append, Bool.and_eq_true]
      exact ⟨h, hblank⟩
    rw [ofTextAt_of_allBlank _ hboth, ofTextAt_of_allBlank _ hblank, Text.byteLength_append,
      Nat.add_assoc]
  · have hboth : allBlank (blanks ++ first) = true := by
      simp only [allBlank, List.all_append, Bool.and_eq_true]
      exact ⟨h, hfirst⟩
    rw [← List.append_assoc, ofTextAt_cons _ hboth hc, ofTextAt_cons _ hfirst hc,
      Text.byteLength_append, Nat.add_assoc]

theorem callOpening?_eq_none_iff (position : Nat) (text : List Char) :
    callOpening? position text = none ↔ NoCall text := by
  unfold callOpening? NoCall
  split
  · next rest heq => simp [heq]
  · next hother => simpa using fun rest heq => hother rest heq

theorem callOpening?_gap (position : Nat) {gap : List Char} (hgap : allBlank gap = true)
    (inside : List Char) :
    callOpening? position (gap ++ '(' :: inside) =
      some (position + byteLength gap, inside) := by
  rw [callOpening?, Text.dropWhile_blanks_append hgap (by decide),
    Text.takeWhile_blanks_append hgap (by decide)]
  rfl

/-- A word that begins no call is the next token of the stream. -/
theorem ofTextAt_word (position : Nat) {blanks source behind : List Char} {t : Token}
    (hblanks : allBlank blanks = true) (hword : Lexeme.Word source t behind)
    (hname : ∀ name, t = .name name → NoCall behind) :
    ofTextAt position (blanks ++ (source ++ behind)) =
      .token t ⟨position + byteLength blanks, position + byteLength blanks + byteLength source⟩
        (ofTextAt (position + byteLength blanks + byteLength source) behind) := by
  obtain ⟨c, rest, rfl, hc, hread⟩ := hword
  rw [List.cons_append, ofTextAt_cons position hblanks hc, ofLexeme, hread]
  dsimp only
  split
  · next heq => cases heq
  · next name heq =>
    cases heq
    rw [(callOpening?_eq_none_iff _ _).2 (hname name rfl)]
  · next heq =>
    cases heq
    rfl

/-- A name and a group between parentheses are the next call of the stream. -/
theorem ofTextAt_call (position : Nat) {blanks source gap arguments behind : List Char}
    {name : String} (hblanks : allBlank blanks = true) (hgap : allBlank gap = true)
    (hword : Lexeme.Word source (.name name) (gap ++ '(' :: (arguments ++ ')' :: behind)))
    (hsplit : Scan.splitAtCloser .round (arguments ++ ')' :: behind) = some (arguments, behind))
    {opening : Nat}
    (hopening : opening = position + byteLength blanks + byteLength source + byteLength gap) :
    ∃ span, ofTextAt position
      (blanks ++ (source ++ (gap ++ '(' :: (arguments ++ ')' :: behind)))) =
        .call name span opening arguments
          (ofTextAt (opening + 1 + byteLength arguments + 1) behind) := by
  obtain ⟨c, rest, rfl, hc, hread⟩ := hword
  rw [List.cons_append, ofTextAt_cons position hblanks hc, ofLexeme, hread]
  dsimp only
  rw [callOpening?_gap _ hgap, ← hopening]
  dsimp only
  rw [hsplit]
  exact ⟨_, rfl⟩

/-- What is **spelled** at the head of a text is taken off its stream. -/
theorem takes_of_spells {items : List Item} {text behind : List Char}
    (h : Spells items text behind) (position : Nat) :
    ∃ position', (ofTextAt position (text ++ behind)).Takes items (ofTextAt position' behind) := by
  induction h generalizing position with
  | nil => exact ⟨position, .nil _⟩
  | token hblanks hword hname _ ih =>
    have hstream := ofTextAt_word position hblanks hword hname
    obtain ⟨position', htakes⟩ := ih _
    refine ⟨position', ?_⟩
    simp only [List.append_assoc] at hstream ⊢
    rw [hstream]
    exact .token htakes
  | call hblanks hgap hword hsplit _ ih =>
    obtain ⟨span, hstream⟩ := ofTextAt_call position hblanks hgap hword hsplit rfl
    obtain ⟨last, htakes⟩ := ih _
    refine ⟨last, ?_⟩
    simp only [List.append_assoc, List.cons_append] at hstream ⊢
    rw [hstream]
    exact .call htakes

/-- The lexeme at the head of a text is a word when it is read as a token. -/
theorem word_ofHead {c : Char} {rest : List Char} {t : Token} (hc : isBlank c = false)
    (h : (Lexeme.ofHead c rest).reading = .ok t) :
    Lexeme.Word (Lexeme.ofHead c rest).source t (Lexeme.ofHead c rest).rest := by
  obtain ⟨happend, hne⟩ := Lexeme.covers_ofHead c rest
  obtain ⟨d, body, hsource⟩ := List.exists_cons_of_ne_nil hne
  refine ⟨d, body, hsource, ?_, ?_⟩
  all_goals
    rw [hsource, List.cons_append, List.cons.injEq] at happend
    obtain ⟨rfl, hrest⟩ := happend
  · exact hc
  · rw [hrest, ← h]

theorem word_of_reading {c : Char} {rest : List Char} {t : Token} (hc : isBlank c = false)
    (h : (Lexeme.ofHead c rest).reading = .ok t) :
    ∃ source behind, c :: rest = source ++ behind ∧ (Lexeme.ofHead c rest).rest = behind ∧
      Lexeme.Word source t behind :=
  ⟨_, _, (Lexeme.covers_ofHead c rest).source_append_rest.symm, rfl, word_ofHead hc h⟩

theorem exists_gap_of_callOpening? {position opening : Nat} {text inside : List Char}
    (h : callOpening? position text = some (opening, inside)) :
    ∃ gap, allBlank gap = true ∧ text = gap ++ '(' :: inside := by
  unfold callOpening? at h
  split at h
  · next rest heq =>
    cases h
    refine ⟨text.takeWhile isBlank, List.all_takeWhile, ?_⟩
    rw [← heq, List.takeWhile_append_dropWhile]
  · cases h

/-- What is taken off the stream of a text, up to its end, is **spelled** by the text. -/
theorem spelled_of_takes {items : List Item} {position last : Nat} {text : List Char}
    (h : (ofTextAt position text).Takes items (.finish last)) : Spelled text items := by
  induction items generalizing position text with
  | nil =>
    rcases Text.exists_blanks_append text with hblank | ⟨blanks, c, rest, rfl, hblanks, hc⟩
    · exact ⟨[], text, rfl, hblank, .nil⟩
    · rw [ofTextAt_cons position hblanks hc, ofLexeme] at h
      split at h
      · cases h
      · split at h
        · cases h
        · split at h <;> cases h
      · cases h
  | cons item items ih =>
    rcases Text.exists_blanks_append text with hblank | ⟨blanks, c, rest, rfl, hblanks, hc⟩
    · rw [ofTextAt_of_allBlank position hblank] at h
      cases h
    rw [ofTextAt_cons position hblanks hc, ofLexeme] at h
    split at h
    · cases h
    · next name hread =>
      obtain ⟨source, behind, htext, hbehind, hword⟩ := word_of_reading hc hread
      rw [hbehind] at h
      split at h
      · next hopening =>
        cases h with
        | token h =>
          obtain ⟨spelling, last, rfl, hlast, hspells⟩ := ih h
          refine ⟨_, last, ?_, hlast, .token hblanks hword (fun name' _ => ?_) hspells⟩
          · rw [htext]
            simp
          · exact (callOpening?_eq_none_iff _ _).1 hopening
      · next opening inside hopening =>
        split at h
        · cases h
        · next arguments outside hsplit =>
          cases h with
          | call h =>
            obtain ⟨spelling, last, rfl, hlast, hspells⟩ := ih h
            obtain ⟨gap, hgap, rfl⟩ := exists_gap_of_callOpening? hopening
            have hinside : inside = arguments ++ ')' :: (spelling ++ last) :=
              Scan.eq_append_closer_of_splitAtTop (g := ⟨.round, 0⟩) rfl hsplit
            rw [hinside] at hword hsplit htext
            refine ⟨_, last, ?_, hlast, .call hblanks hgap hword hsplit hspells⟩
            rw [htext]
            simp
    · next t hname hread =>
      obtain ⟨source, behind, htext, hbehind, hword⟩ := word_of_reading hc hread
      rw [hbehind] at h
      cases h with
      | token h =>
        obtain ⟨spelling, last, rfl, hlast, hspells⟩ := ih h
        refine ⟨_, last, ?_, hlast, .token hblanks hword (fun name hname' => ?_) hspells⟩
        · rw [htext]
          simp
        · exact absurd hname' (hname name)

/-- Spelling items and **taking** them off the stream of the whole text is the same. -/
theorem spelled_iff_takes (position : Nat) {text : List Char} {items : List Item} :
    Spelled text items ↔ ∃ last, (ofTextAt position text).Takes items (.finish last) := by
  constructor
  · rintro ⟨spelling, blanks, rfl, hblanks, hspells⟩
    obtain ⟨position', htakes⟩ := takes_of_spells hspells position
    rw [ofTextAt_of_allBlank position' hblanks] at htakes
    exact ⟨_, htakes⟩
  · rintro ⟨last, htakes⟩
    exact spelled_of_takes htakes

end TokenStream

/-! ### Blanks at the ends -/

theorem noCall_append_blanks {blanks : List Char} (h : allBlank blanks = true)
    (text : List Char) : NoCall (text ++ blanks) ↔ NoCall text := by
  unfold NoCall
  rw [List.dropWhile_append, Text.dropWhile_of_allBlank h]
  cases text.dropWhile isBlank with
  | nil => simp
  | cons c rest =>
    simp only [List.isEmpty_cons, Bool.false_eq_true, if_false, List.cons_append, ne_eq,
      List.cons.injEq, not_and]
    exact ⟨fun h tail hc _ => h _ hc rfl, fun h tail hc _ => h _ hc rfl⟩

theorem meets_of_allBlank {blanks : List Char} (h : allBlank blanks = true)
    (behind : List Char) : Lexeme.Meets behind blanks := by
  intro c hc
  cases blanks with
  | nil => cases hc
  | cons d rest =>
    cases hc
    exact .inl (List.all_eq_true.1 h c (List.mem_cons_self ..))

/-- Which blanks stand **behind** a row of items does not matter. -/
theorem Spells.blanks {items : List Item} {text blanks blanks' : List Char}
    (h : Spells items text blanks) (hblanks : allBlank blanks = true)
    (hblanks' : allBlank blanks' = true) : Spells items text blanks' := by
  have hmeets := meets_of_allBlank hblanks' blanks
  induction h with
  | nil => exact .nil
  | token hfirst hword hname _ ih =>
    refine .token hfirst (hword.meets (hmeets.append _)) (fun name heq => ?_)
      (ih hblanks hmeets)
    exact (noCall_append_blanks hblanks' _).2 ((noCall_append_blanks hblanks _).1 (hname name heq))
  | @call _ _ gap arguments text _ _ _ hfirst hgap hword hsplit _ ih =>
    refine .call hfirst hgap (hword.meets ?_) (Scan.splitAtTop_append hsplit _) (ih hblanks hmeets)
    simpa using hmeets.append (gap ++ '(' :: (arguments ++ ')' :: text))

theorem Word.getLast?_append {source : List Char} {t : Token} {behind : List Char}
    (h : Lexeme.Word source t behind) (before text : List Char) :
    (before ++ (source ++ text)).getLast? = text.getLast?.or source.getLast? := by
  obtain ⟨c, rest, rfl, -, -⟩ := h
  simp [List.getLast?_append, List.getLast?_cons]

/-- A row of items does not **end** with a blank. -/
theorem Spells.isBlank_getLast {items : List Item} {text behind : List Char}
    (h : Spells items text behind) : ∀ c ∈ text.getLast?, isBlank c = false := by
  induction h with
  | nil => exact fun c hc => by cases hc
  | @token _ source text _ _ _ _ hword _ _ ih =>
    intro c hc
    rw [Word.getLast?_append hword] at hc
    cases hlast : text.getLast? with
    | none =>
      rw [hlast, Option.none_or] at hc
      exact hword.isBlank_getLast c hc
    | some d =>
      rw [hlast, Option.some_or] at hc
      exact ih c (hlast.trans hc)
  | @call _ source gap arguments text _ _ _ _ _ hword _ _ ih =>
    intro c hc
    have hlast : (gap ++ '(' :: (arguments ++ ')' :: text)).getLast? =
        some (text.getLast?.getD ')') := by
      simp [List.getLast?_append, List.getLast?_cons]
    rw [Word.getLast?_append hword, hlast, Option.some_or, Option.mem_some_iff] at hc
    cases htext : text.getLast? with
    | none =>
      rw [htext] at hc
      subst hc
      decide
    | some d =>
      rw [htext] at hc
      exact ih c (htext.trans (congrArg some hc))

theorem spelled_append_blanks {blanks : List Char} (h : allBlank blanks = true)
    {text : List Char} {items : List Item} :
    Spelled (text ++ blanks) items ↔ Spelled text items := by
  constructor
  · rintro ⟨spelling, last, htext, hlast, hspells⟩
    rcases List.append_eq_append_iff.1 htext with ⟨extra, rfl, rfl⟩ | ⟨extra, rfl, rfl⟩
    · -- the spelling cannot go on into the blanks, where it would end
      obtain ⟨hextra, -⟩ : allBlank extra = true ∧ allBlank last = true := by
        simpa [allBlank] using h
      cases hend : extra.getLast? with
      | none =>
        rw [List.getLast?_eq_none_iff] at hend
        subst hend
        refine ⟨text, [], by simp, rfl, ?_⟩
        rw [List.append_nil] at hspells
        exact hspells.blanks hlast rfl
      | some c =>
        have hc := List.all_eq_true.1 hextra c (List.mem_of_getLast? hend)
        have hnot := hspells.isBlank_getLast c (by simp [List.getLast?_append, hend])
        rw [hc] at hnot
        cases hnot
    · have hextra : allBlank extra = true := by
        have hboth : allBlank extra = true ∧ allBlank blanks = true := by
          simpa [allBlank] using hlast
        exact hboth.1
      exact ⟨spelling, extra, rfl, hextra, hspells.blanks hlast hextra⟩
  · rintro ⟨spelling, last, rfl, hlast, hspells⟩
    have hboth : allBlank (last ++ blanks) = true := by
      simp only [allBlank, List.all_append, Bool.and_eq_true]
      exact ⟨hlast, h⟩
    exact ⟨spelling, last ++ blanks, by simp, hboth, hspells.blanks hlast hboth⟩

theorem spelled_blanks_append {blanks : List Char} (h : allBlank blanks = true)
    {text : List Char} {items : List Item} :
    Spelled (blanks ++ text) items ↔ Spelled text items := by
  rw [TokenStream.spelled_iff_takes 0, TokenStream.spelled_iff_takes (0 + byteLength blanks),
    TokenStream.ofTextAt_blanks_append h]

/-- **Padding** a text does not change what it spells. -/
theorem spelled_padded {text padded : List Char} (h : Text.Padded text padded)
    {items : List Item} : Spelled padded items ↔ Spelled text items := by
  obtain ⟨before, behind, hbefore, hbehind, rfl⟩ := h
  rw [spelled_append_blanks hbehind, spelled_blanks_append hbefore]

end GridFormula
