import GridFormula.Lexeme
import GridFormula.Text.Blank

/-!
# Words

The characters of a token, seen apart from the rest of the text. A lexeme takes as many characters
as fit, so whether some characters are read as one token depends on what stands behind them, but
only on the first character there: it must not go on with the word. A blank never does.

## Main definitions

* `Lexeme.Word`: characters that are read as one token in front of some text.
* `Lexeme.Made`: the kinds of words, with what must not stand behind them.
* `Lexeme.IsMark`: signs that are words whatever stands behind them.
* `Lexeme.Meets`: texts that begin like another one, or with a blank.

## Main results

* `Lexeme.word_iff_made`: there are no other words.
* `Lexeme.Made.meets`: what a word is read as depends on the first character behind it alone.
* `Lexeme.Word.isBlank_getLast`: the last character of a word is not blank.
-/

namespace GridFormula

open Text (isBlank)

namespace Lexeme

/-! ### Blanks in words -/

/-- No blank goes on with a name. -/
theorem isNamePart_of_isBlank {c : Char} (h : isBlank c = true) : isNamePart c = false :=
  Text.eq_false_of_isBlank (p := isNamePart) (by decide +kernel) h

/-- No blank stands in a numeral. -/
theorem isNumeralPart_of_isBlank {c : Char} (h : isBlank c = true) : isNumeralPart c = false :=
  Text.eq_false_of_isBlank (p := isNumeralPart) (by decide) h

theorem isBlank_of_isNamePart {c : Char} (h : isNamePart c = true) : isBlank c = false := by
  cases hblank : isBlank c with
  | false => rfl
  | true =>
    rw [isNamePart_of_isBlank hblank] at h
    cases h

theorem isNamePart_of_isNameStart {c : Char} (h : isNameStart c = true) : isNamePart c = true := by
  simp only [isNameStart, Bool.or_eq_true] at h
  simp only [isNamePart, Bool.or_eq_true]
  rcases h with (h | h) | h <;> simp [h]

/-! ### Where a run of characters stops -/

section Runs

variable {p : Char → Bool} {run behind : List Char} (hrun : ∀ c ∈ run, p c = true)
  (hbehind : ∀ c ∈ behind.head?, p c = false)
include hrun hbehind

theorem takeWhile_append_of_stop : (run ++ behind).takeWhile p = run := by
  rw [List.takeWhile_append_of_pos hrun]
  cases behind with
  | nil => exact List.append_nil run
  | cons c rest => rw [List.takeWhile_cons_of_neg (by simp [hbehind c rfl]), List.append_nil]

theorem dropWhile_append_of_stop : (run ++ behind).dropWhile p = behind := by
  rw [List.dropWhile_append_of_pos hrun]
  cases behind with
  | nil => rfl
  | cons c rest => exact List.dropWhile_cons_of_neg (by simp [hbehind c rfl])

omit hrun hbehind in
/-- A run that has been taken stops where it has to. -/
theorem stop_of_takeWhile_eq (h : (run ++ behind).takeWhile p = run) :
    (∀ c ∈ run, p c = true) ∧ ∀ c ∈ behind.head?, p c = false := by
  have hrun : ∀ c ∈ run, p c = true := by
    rw [← h]
    exact List.all_eq_true.1 List.all_takeWhile
  refine ⟨hrun, fun c hc => ?_⟩
  cases behind with
  | nil => cases hc
  | cons d rest =>
    cases hc
    cases hd : p c with
    | false => rfl
    | true =>
      rw [List.takeWhile_append_of_pos hrun, List.takeWhile_cons_of_pos hd] at h
      have hlength := congrArg List.length h
      simp at hlength

end Runs

/-! ### Quotations -/

theorem quotation_cons_mark (mark : Char) (text : List Char) :
    quotation mark (mark :: text) = ⟨some [], [mark], text⟩ := by
  cases text <;> simp [quotation]

theorem quotation_cons_escape {mark : Char} (hmark : '\\' ≠ mark) (c : Char) (text : List Char) :
    quotation mark ('\\' :: c :: text) = (quotation mark text).push ['\\', c] (unescaped c) := by
  rw [quotation, if_neg hmark, if_pos rfl]

theorem quotation_cons {mark c : Char} (hmark : c ≠ mark) (hslash : c ≠ '\\') (text : List Char) :
    quotation mark (c :: text) = (quotation mark text).push [c] c := by
  cases text with
  | nil => simp [quotation, hmark, Quotation.push]
  | cons d rest => rw [quotation, if_neg hmark, if_neg hslash]

/-- A quotation that is closed is the same whatever stands **behind its closing mark**. -/
theorem quotation_append_of_closed {mark : Char} (hmark : '\\' ≠ mark) {text : List Char}
    {content : List Char} (h : (quotation mark text).content = some content)
    (behind : List Char) :
    quotation mark ((quotation mark text).source ++ behind) =
      ⟨some content, (quotation mark text).source, behind⟩ := by
  fun_induction quotation mark text generalizing content with
  | case1 => cases h
  | case2 =>
    cases h
    exact quotation_cons_mark mark behind
  | case3 => cases h
  | case4 c rest =>
    cases h
    exact quotation_cons_mark mark behind
  | case5 c rest _ ih =>
    simp only [Quotation.push, Option.map_eq_some_iff] at h
    obtain ⟨content, h, rfl⟩ := h
    simp only [Quotation.push, List.cons_append, List.nil_append]
    rw [quotation_cons_escape hmark, ih h]
    rfl
  | case6 c d rest hc hslash ih =>
    simp only [Quotation.push, Option.map_eq_some_iff] at h
    obtain ⟨content, h, rfl⟩ := h
    simp only [Quotation.push, List.cons_append, List.nil_append]
    rw [quotation_cons hc hslash, ih h]
    rfl

/-! ### Kinds of words -/

/-- The characters `source` are read as one token, a **word**, in front of the text `behind`. -/
def Word (source : List Char) (t : Token) (behind : List Char) : Prop :=
  ∃ c rest, source = c :: rest ∧ isBlank c = false ∧
    ofHead c (rest ++ behind) = ⟨source, .ok t, behind⟩

/-- The **signs**, each with its token. -/
def signs : List (List Char × Token) :=
  [(['('], .roundOpen), ([')'], .roundClose), (['['], .squareOpen), ([']'], .squareClose),
   ([','], .comma), (['.'], .dot), (['#'], .hash), (['!'], .bang),
   (['+'], .operator .add), (['-'], .operator .subtract), (['*'], .operator .multiply),
   (['/'], .operator .divide), (['%'], .operator .modulo), (['&'], .operator .concat),
   (['<'], .operator .less), (['>'], .operator .greater),
   (['&', '&'], .operator .and), (['|', '|'], .operator .or), (['=', '='], .operator .equal),
   (['!', '='], .operator .notEqual), (['<', '='], .operator .lessEqual),
   (['>', '='], .operator .greaterEqual)]

/-- A word is **made** in one of these ways. -/
inductive Made : List Char → Token → List Char → Prop
  /-- A sign that is not the beginning of a longer one. -/
  | sign {source behind : List Char} {t : Token} : (source, t) ∈ signs →
      (∀ d ∈ behind.head?, ∀ longer ∈ signs, longer.1 ≠ source ++ [d]) → Made source t behind
  /-- A text between double quotes. -/
  | text {body behind content : List Char} : quotation '"' body = ⟨some content, body, []⟩ →
      Made ('"' :: body) (.text (String.ofList content)) behind
  /-- A field name between apostrophes. -/
  | field {body behind content : List Char} : quotation '\'' body = ⟨some content, body, []⟩ →
      Made ('\'' :: body) (.field (String.ofList content)) behind
  /-- A numeral. -/
  | number {c : Char} {rest behind : List Char} {m : Magnitude} : c.isDigit = true →
      ofNumeral (c :: rest ++ behind) = ⟨c :: rest, .ok (.number (.signed false m)), behind⟩ →
        Made (c :: rest) (.number (.signed false m)) behind
  /-- A name that goes as far as it can. -/
  | name {c : Char} {rest behind : List Char} : c.isDigit = false → isNameStart c = true →
      (∀ d ∈ rest, isNamePart d = true) → (∀ d ∈ behind.head?, isNamePart d = false) →
        Made (c :: rest) (.name (String.ofList (c :: rest))) behind

/-- A **mark** is a sign of one character that begins no longer one. -/
def IsMark (c : Char) (t : Token) : Prop :=
  ([c], t) ∈ signs ∧ ∀ sign ∈ signs, sign.1.head? = some c → sign.1 = [c]

instance (c : Char) (t : Token) : Decidable (IsMark c t) :=
  inferInstanceAs (Decidable (_ ∧ _))

/-- A mark is a word wherever it stands. -/
theorem made_mark {c : Char} {t : Token} (h : IsMark c t) (behind : List Char) :
    Made [c] t behind := by
  refine .sign h.1 fun d _ longer hlonger heq => ?_
  have hshort := h.2 longer hlonger (by rw [heq]; rfl)
  rw [hshort] at heq
  cases heq

/-- There are no blanks in signs. -/
theorem isBlank_of_mem_sign {source : List Char} {t : Token} (h : (source, t) ∈ signs) {c : Char}
    (hc : c ∈ source) : isBlank c = false := by
  have hall : signs.all (fun sign => sign.1.all fun c => !isBlank c) = true := by decide
  have hsign := List.all_eq_true.1 (List.all_eq_true.1 hall (source, t) h) c hc
  simpa using hsign

/-- No sign has three characters. -/
theorem ne_of_mem_signs {a b c : Char} {sign : List Char × Token} (h : sign ∈ signs) :
    sign.1 ≠ [a, b, c] := by
  have hlength : ∀ sign ∈ signs, sign.1.length ≤ 2 := by decide
  intro heq
  have htwo := hlength sign h
  rw [heq] at htwo
  contradiction

section Shapes

variable {c : Char} {source behind text : List Char} {t : Token}

theorem made_single {token : Token} (h : single c token text = ⟨source, .ok t, behind⟩)
    (hmem : ([c], token) ∈ signs) (hlonger : ∀ d, ∀ longer ∈ signs, longer.1 ≠ [c, d]) :
    Made source t behind := by
  cases h
  exact .sign hmem fun d _ => hlonger d

theorem made_pair {second : Char} {double token : Token}
    (h : pair c second double token text = ⟨source, .ok t, behind⟩)
    (hmem : ([c], token) ∈ signs) (hdouble : ([c, second], double) ∈ signs)
    (hlonger : ∀ d, ∀ longer ∈ signs, longer.1 = [c, d] → d = second) :
    Made source t behind := by
  unfold pair at h
  split at h
  · cases h
    exact .sign hmem fun d hd => by cases hd
  · next d rest =>
    split at h
    · next heq =>
      cases h
      subst heq
      exact .sign hdouble fun e _ longer => ne_of_mem_signs
    · next hne =>
      cases h
      refine .sign hmem fun e he longer hmem heq => ?_
      cases he
      exact hne (hlonger _ longer hmem heq)

theorem made_doubled {second : Char} {token : Token} {fault : SyntaxFault}
    (h : doubled c second token fault text = ⟨source, .ok t, behind⟩)
    (hmem : ([c, second], token) ∈ signs) : Made source t behind := by
  unfold doubled at h
  split at h
  · cases h
  · next d rest =>
    split at h
    · next heq =>
      cases h
      subst heq
      exact .sign hmem fun e _ longer => ne_of_mem_signs
    · cases h

theorem exists_of_ofQuotation {mark : Char} (hmark : '\\' ≠ mark) {read : String → Token}
    (h : ofQuotation mark read text = ⟨source, .ok t, behind⟩) :
    ∃ body content, source = mark :: body ∧ t = read (String.ofList content) ∧
      quotation mark body = ⟨some content, body, []⟩ := by
  unfold ofQuotation at h
  dsimp only at h
  split at h
  · next content hcontent =>
    cases h
    refine ⟨_, content, rfl, rfl, ?_⟩
    have hbody := quotation_append_of_closed hmark hcontent []
    rwa [List.append_nil] at hbody
  · cases h

/-- A numeral is read as a number without a sign. -/
theorem exists_of_ofNumeral (h : ofNumeral text = ⟨source, .ok t, behind⟩) :
    ∃ m, t = .number (.signed false m) ∧ Magnitude.ofNumeral? source = some m := by
  unfold ofNumeral at h
  simp only [Lexeme.mk.injEq] at h
  obtain ⟨rfl, hread, -⟩ := h
  split at hread
  · split at hread
    · next m hm =>
      cases hread
      exact ⟨m, rfl, hm⟩
    · cases hread
  · cases hread

theorem made_ofWord (h : ofWord c text = ⟨source, .ok t, behind⟩) : Made source t behind := by
  have hcovers := (covers_ofWord c text).source_append_rest
  rw [h] at hcovers
  unfold ofWord at h
  split at h
  · next hdigit =>
    have hsource := (covers_ofNumeral hdigit text).source_ne_nil
    rw [h] at hsource
    obtain ⟨d, rest, rfl⟩ := List.exists_cons_of_ne_nil hsource
    obtain ⟨rfl, rfl⟩ : d = c ∧ rest ++ behind = text := by simpa using hcovers
    obtain ⟨m, rfl, -⟩ := exists_of_ofNumeral h
    exact .number hdigit h
  · next hdigit =>
    split at h
    · next hstart =>
      cases h
      refine .name (by simpa using hdigit) hstart (List.all_eq_true.1 List.all_takeWhile) ?_
      intro d hd
      have hhead := List.head?_dropWhile_not isNamePart text
      cases hrest : text.dropWhile isNamePart with
      | nil => rw [hrest] at hd; cases hd
      | cons e rest =>
        rw [hrest] at hd hhead
        cases hd
        simpa using hhead
    · cases h

end Shapes

/-- There are **no other words**. -/
theorem made_of_word {source behind : List Char} {t : Token} (h : Word source t behind) :
    Made source t behind := by
  obtain ⟨c, rest, rfl, -, h⟩ := h
  unfold ofHead at h
  split at h
  case h_13 => exact made_pair h (by decide) (by decide) (by simp [signs])
  case h_14 => exact made_pair h (by decide) (by decide) (by simp [signs])
  case h_15 => exact made_pair h (by decide) (by decide) (by simp [signs])
  case h_16 => exact made_pair h (by decide) (by decide) (by simp [signs])
  case h_17 => exact made_doubled h (by decide)
  case h_18 => exact made_doubled h (by decide)
  case h_19 =>
    obtain ⟨body, content, heq, rfl, hbody⟩ := exists_of_ofQuotation (by decide) h
    rw [heq]
    exact .text hbody
  case h_20 =>
    obtain ⟨body, content, heq, rfl, hbody⟩ := exists_of_ofQuotation (by decide) h
    rw [heq]
    exact .field hbody
  case h_21 => cases h
  case h_22 => exact made_ofWord h
  all_goals exact made_single h (by decide) (by simp [signs])

theorem isNamePart_of_isDigit {c : Char} (h : c.isDigit = true) : isNamePart c = true := by
  have hascii : c.toNat < 0x80 := by
    simp only [Char.isDigit, Bool.and_eq_true, decide_eq_true_eq, UInt32.le_iff_toNat_le] at h
    have hnine : c.toNat ≤ 57 := h.2
    omega
  simp [isNamePart, Text.isNumeral, hascii, h]

/-- No sign and no quotation mark is part of a name. -/
theorem ofHead_eq_ofWord {c : Char} (h : isNamePart c = true) (rest : List Char) :
    ofHead c rest = ofWord c rest := by
  unfold ofHead
  split <;> first | rfl | exact absurd h (by decide)

theorem word_of_sign {source behind : List Char} {t : Token} (h : (source, t) ∈ signs)
    (hbehind : ∀ d ∈ behind.head?, ∀ longer ∈ signs, longer.1 ≠ source ++ [d]) :
    Word source t behind := by
  simp only [signs, List.mem_cons, Prod.mk.injEq, List.not_mem_nil, or_false] at h
  rcases h with ⟨rfl, rfl⟩ | ⟨rfl, rfl⟩ | ⟨rfl, rfl⟩ | ⟨rfl, rfl⟩ | ⟨rfl, rfl⟩ | ⟨rfl, rfl⟩ |
    ⟨rfl, rfl⟩ | ⟨rfl, rfl⟩ | ⟨rfl, rfl⟩ | ⟨rfl, rfl⟩ | ⟨rfl, rfl⟩ | ⟨rfl, rfl⟩ | ⟨rfl, rfl⟩ |
    ⟨rfl, rfl⟩ | ⟨rfl, rfl⟩ | ⟨rfl, rfl⟩ | ⟨rfl, rfl⟩ | ⟨rfl, rfl⟩ | ⟨rfl, rfl⟩ | ⟨rfl, rfl⟩ |
    ⟨rfl, rfl⟩ | ⟨rfl, rfl⟩
  all_goals refine ⟨_, _, rfl, by decide, ?_⟩
  all_goals first
    | rfl
    | cases behind with
      | nil => rfl
      | cons d rest =>
        have hd := hbehind d rfl
        simp only [signs, List.mem_cons, List.not_mem_nil, or_false, forall_eq_or_imp] at hd
        simp_all [ofHead, pair, single, eq_comm]

theorem word_of_made {source behind : List Char} {t : Token} (h : Made source t behind) :
    Word source t behind := by
  cases h with
  | sign hmem hbehind => exact word_of_sign hmem hbehind
  | text hbody =>
    have hclosed := quotation_append_of_closed (by decide : '\\' ≠ '"') (by rw [hbody]) behind
    rw [hbody] at hclosed
    refine ⟨_, _, rfl, by decide, ?_⟩
    simp only [ofHead, ofQuotation, hclosed]
  | field hbody =>
    have hclosed := quotation_append_of_closed (by decide : '\\' ≠ '\'') (by rw [hbody]) behind
    rw [hbody] at hclosed
    refine ⟨_, _, rfl, by decide, ?_⟩
    simp only [ofHead, ofQuotation, hclosed]
  | number hdigit hread =>
    have hpart := isNamePart_of_isDigit hdigit
    refine ⟨_, _, rfl, isBlank_of_isNamePart hpart, ?_⟩
    rw [ofHead_eq_ofWord hpart, ofWord, if_pos hdigit]
    exact hread
  | @name c rest _ hdigit hstart hrest hbehind =>
    have hpart := isNamePart_of_isNameStart hstart
    refine ⟨_, _, rfl, isBlank_of_isNamePart hpart, ?_⟩
    rw [ofHead_eq_ofWord hpart, ofWord, if_neg (by simp [hdigit]), if_pos hstart, ofName,
      takeWhile_append_of_stop hrest hbehind, dropWhile_append_of_stop hrest hbehind]

theorem word_iff_made {source behind : List Char} {t : Token} :
    Word source t behind ↔ Made source t behind :=
  ⟨made_of_word, word_of_made⟩

/-! ### What stands behind a word -/

/-- The second text **meets** a word as the first one does: it begins with the same character or
with a blank, or it is empty. -/
def Meets (behind behind' : List Char) : Prop :=
  ∀ c ∈ behind'.head?, isBlank c = true ∨ c ∈ behind.head?

theorem Meets.stop {p : Char → Bool} {behind behind' : List Char} (h : Meets behind behind')
    (hblank : ∀ {c}, isBlank c = true → p c = false) (hstop : ∀ c ∈ behind.head?, p c = false) :
    ∀ c ∈ behind'.head?, p c = false := by
  intro c hc
  rcases h c hc with hc | hc
  · exact hblank hc
  · exact hstop c hc

theorem Meets.append {behind behind' : List Char} (h : Meets behind behind')
    (text : List Char) : Meets (text ++ behind) (text ++ behind') := by
  cases text with
  | nil => exact h
  | cons c rest => exact fun d hd => .inr hd

theorem isDigit_of_isBlank {c : Char} (h : isBlank c = true) : c.isDigit = false := by
  have hpart := isNumeralPart_of_isBlank h
  simp only [isNumeralPart, Bool.or_eq_false_iff] at hpart
  exact hpart.1

/-- Whether `c` begins an exponent. -/
def isExponentMark (c : Char) : Bool := c = 'e' || c = 'E'

theorem exponent_of_stop {text : List Char} (h : ∀ c ∈ text.head?, isExponentMark c = false) :
    exponent text = ([], text) := by
  cases text with
  | nil => rfl
  | cons c rest =>
    have hc := h c rfl
    unfold isExponentMark at hc
    rw [exponent, if_neg (by simp [hc])]

theorem exponent_cons {c : Char} (hc : isExponentMark c = true) (rest : List Char) :
    exponent (c :: rest) = (c :: ((exponentSign rest).1 ++
      (exponentSign rest).2.takeWhile Char.isDigit),
        (exponentSign rest).2.dropWhile Char.isDigit) := by
  unfold isExponentMark at hc
  rw [exponent, if_pos hc]

theorem isNamePart_of_isExponentMark {c : Char} (h : isExponentMark c = true) :
    isNamePart c = true := by
  simp only [isExponentMark, Bool.or_eq_true, decide_eq_true_eq] at h
  rcases h with rfl | rfl <;> decide

theorem isExponentMark_of_isBlank {c : Char} (h : isBlank c = true) : isExponentMark c = false := by
  cases hmark : isExponentMark c with
  | false => rfl
  | true => exact nomatch (isBlank_of_isNamePart (isNamePart_of_isExponentMark hmark)).symm.trans h

/-- The second text **stops a numeral** wherever the first one does. -/
def StopsAs (behind behind' : List Char) : Prop :=
  ∀ p ∈ [isNumeralPart, Char.isDigit, isExponentMark],
    (∀ c ∈ behind.head?, p c = false) → ∀ c ∈ behind'.head?, p c = false

theorem StopsAs.append {behind behind' : List Char} (h : StopsAs behind behind')
    (text : List Char) : StopsAs (text ++ behind) (text ++ behind') := by
  cases text with
  | nil => exact h
  | cons c rest => exact fun p _ hstop => hstop

theorem Meets.stopsAs {behind behind' : List Char} (h : Meets behind behind') :
    StopsAs behind behind' := by
  simp only [StopsAs, List.forall_mem_cons, List.not_mem_nil, false_imp_iff, implies_true, and_true]
  exact ⟨h.stop isNumeralPart_of_isBlank, h.stop isDigit_of_isBlank,
    h.stop isExponentMark_of_isBlank⟩

/-- A complete exponent is the same in front of a text that stops it in the same way. -/
theorem exponent_stopsAs {power behind behind' : List Char}
    (h : exponent (power ++ behind) = (power, behind)) (hcomplete : exponentComplete power = true)
    (hstops : StopsAs behind behind') : exponent (power ++ behind') = (power, behind') := by
  cases power with
  | nil =>
    refine exponent_of_stop (hstops isExponentMark (by simp) fun c hc => ?_)
    cases behind with
    | nil => cases hc
    | cons d rest =>
      cases hc
      cases hmark : isExponentMark c with
      | false => rfl
      | true =>
        rw [List.nil_append, exponent_cons hmark] at h
        cases h
  | cons c power =>
    have hmark : isExponentMark c = true := by
      cases hmark : isExponentMark c with
      | true => rfl
      | false =>
        rw [exponent_of_stop (by simp [hmark])] at h
        cases h
    -- the digits behind the sign stop where the exponent does
    have hdigits : ∀ sign digits : List Char, power = sign ++ digits →
        (∀ rest, exponentSign (power ++ rest) = (sign, digits ++ rest)) →
        exponent (c :: power ++ behind') = (c :: power, behind') := by
      intro sign digits hpower hsign
      rw [List.cons_append, exponent_cons hmark, hsign, hpower] at h ⊢
      simp only [Prod.mk.injEq, List.cons.injEq, true_and, List.append_cancel_left_eq] at h
      obtain ⟨hrun, hstop⟩ := stop_of_takeWhile_eq h.1
      have hstop' := hstops Char.isDigit (by simp) hstop
      rw [takeWhile_append_of_stop hrun hstop', dropWhile_append_of_stop hrun hstop']
    cases power with
    | nil =>
      simp only [isExponentMark, Bool.or_eq_true, decide_eq_true_eq] at hmark
      rcases hmark with rfl | rfl <;> exact absurd hcomplete (by decide)
    | cons d digits =>
      by_cases hplus : d = '+'
      · subst hplus
        exact hdigits ['+'] _ rfl fun rest => rfl
      · by_cases hminus : d = '-'
        · subst hminus
          exact hdigits ['-'] _ rfl fun rest => rfl
        · refine hdigits [] _ rfl fun rest => ?_
          simp only [List.cons_append, exponentSign]
          split <;> simp_all

/-- A numeral is the same in front of a text that stops it in the same way. -/
theorem ofNumeral_stopsAs {source behind behind' : List Char} {t : Token}
    (h : ofNumeral (source ++ behind) = ⟨source, .ok t, behind⟩)
    (hstops : StopsAs behind behind') :
    ofNumeral (source ++ behind') = ⟨source, .ok t, behind'⟩ := by
  have htext := List.takeWhile_append_dropWhile (p := isNumeralPart) (l := source ++ behind)
  have happend := exponent_append ((source ++ behind).dropWhile isNumeralPart)
  unfold ofNumeral at h
  simp only [Lexeme.mk.injEq] at h
  obtain ⟨hsource, hread, hbehind⟩ := h
  generalize hmantissa : (source ++ behind).takeWhile isNumeralPart = mantissa at *
  generalize hdrop : (source ++ behind).dropWhile isNumeralPart = drop at *
  rcases hexponent : exponent drop with ⟨power, rest⟩
  rw [hexponent] at happend hsource hread hbehind
  dsimp only at happend hsource hread hbehind
  subst happend hsource hbehind
  have hcomplete : exponentComplete power = true := by
    cases hcomplete : exponentComplete power with
    | true => rfl
    | false =>
      rw [hcomplete] at hread
      cases hread
  have hexponent' := exponent_stopsAs hexponent hcomplete hstops
  have hrun : ∀ c ∈ mantissa, isNumeralPart c = true := by
    rw [← hmantissa]
    exact List.all_eq_true.1 List.all_takeWhile
  have hstop : ∀ c ∈ (power ++ rest).head?, isNumeralPart c = false := by
    intro c hc
    have hhead := List.head?_dropWhile_not isNumeralPart (mantissa ++ power ++ rest)
    rw [hdrop, Option.mem_def.1 hc] at hhead
    simpa using hhead
  have hstop' := hstops.append power isNumeralPart (by simp) hstop
  unfold ofNumeral
  rw [List.append_assoc, takeWhile_append_of_stop hrun hstop', dropWhile_append_of_stop hrun hstop',
    hexponent']
  dsimp only
  rw [hread]

/-- What a word is read as depends on the **first character behind it** alone. -/
theorem Made.meets {source behind behind' : List Char} {t : Token} (h : Made source t behind)
    (hmeets : Meets behind behind') : Made source t behind' := by
  cases h with
  | sign hmem hbehind =>
    refine .sign hmem fun d hd longer hlonger => ?_
    rcases hmeets d hd with hd | hd
    · intro heq
      have hpart := isBlank_of_mem_sign hlonger (by simp [heq] : d ∈ longer.1)
      rw [hd] at hpart
      cases hpart
    · exact hbehind d hd longer hlonger
  | text hbody => exact .text hbody
  | field hbody => exact .field hbody
  | number hdigit hread => exact .number hdigit (ofNumeral_stopsAs hread hmeets.stopsAs)
  | name hdigit hstart hrest hbehind =>
    exact .name hdigit hstart hrest (hmeets.stop isNamePart_of_isBlank hbehind)

theorem Word.meets {source behind behind' : List Char} {t : Token} (h : Word source t behind)
    (hmeets : Meets behind behind') : Word source t behind' :=
  word_of_made ((made_of_word h).meets hmeets)

/-! ### The characters of a word -/

/-- Whether `c` is part of names or of numerals. -/
def isWordPart (c : Char) : Bool := isNamePart c || c = '.' || c = '+' || c = '-'

theorem isWordPart_of_isNumeralPart {c : Char} (h : isNumeralPart c = true) :
    isWordPart c = true := by
  simp only [isNumeralPart, Bool.or_eq_true] at h
  rcases h with h | h
  · simp [isWordPart, isNamePart_of_isDigit h]
  · simp [isWordPart, h]

theorem isWordPart_of_mem_exponent {c : Char} {text : List Char} (h : c ∈ (exponent text).1) :
    isWordPart c = true := by
  cases text with
  | nil => cases h
  | cons d rest =>
    cases hmark : isExponentMark d with
    | false =>
      rw [exponent_of_stop (by simp [hmark])] at h
      cases h
    | true =>
      rw [exponent_cons hmark] at h
      simp only [List.mem_cons, List.mem_append] at h
      rcases h with rfl | h | h
      · simp only [isExponentMark, Bool.or_eq_true, decide_eq_true_eq] at hmark
        rcases hmark with rfl | rfl <;> decide
      · unfold exponentSign at h
        split at h <;> simp_all [isWordPart]
      · have hdigit := List.all_eq_true.1 List.all_takeWhile c h
        simp [isWordPart, isNamePart_of_isDigit hdigit]

theorem isWordPart_of_mem_numeral {c : Char} {text source : List Char} {t : Token}
    {behind : List Char} (h : ofNumeral text = ⟨source, .ok t, behind⟩) (hc : c ∈ source) :
    isWordPart c = true := by
  unfold ofNumeral at h
  simp only [Lexeme.mk.injEq] at h
  obtain ⟨rfl, -, -⟩ := h
  rcases List.mem_append.1 hc with hc | hc
  · exact isWordPart_of_isNumeralPart (List.all_eq_true.1 List.all_takeWhile c hc)
  · exact isWordPart_of_mem_exponent hc

theorem isBlank_of_isWordPart {c : Char} (h : isWordPart c = true) : isBlank c = false := by
  simp only [isWordPart, Bool.or_eq_true, decide_eq_true_eq] at h
  rcases h with ((h | rfl) | rfl) | rfl
  · exact isBlank_of_isNamePart h
  · decide
  · decide
  · decide

/-- A closed quotation ends with its mark. -/
theorem getLast?_of_closed {mark : Char} {text content : List Char}
    (h : (quotation mark text).content = some content) :
    (quotation mark text).source.getLast? = some mark := by
  fun_induction quotation mark text generalizing content with
  | case1 => cases h
  | case2 => rfl
  | case3 => cases h
  | case4 => rfl
  | case5 c rest _ ih =>
    simp only [Quotation.push, Option.map_eq_some_iff] at h
    obtain ⟨content, h, rfl⟩ := h
    rw [Quotation.push, List.getLast?_append, ih h, Option.some_or]
  | case6 c d rest _ _ ih =>
    simp only [Quotation.push, Option.map_eq_some_iff] at h
    obtain ⟨content, h, rfl⟩ := h
    rw [Quotation.push, List.getLast?_append, ih h, Option.some_or]

/-- The **last character** of a word is not blank. -/
theorem Word.isBlank_getLast {source behind : List Char} {t : Token} (h : Word source t behind) :
    ∀ c ∈ source.getLast?, isBlank c = false := by
  have hquote : ∀ {mark : Char} {body content : List Char},
      quotation mark body = ⟨some content, body, []⟩ → isBlank mark = false →
        ∀ c ∈ (mark :: body).getLast?, isBlank c = false := by
    intro mark body content hbody hmark c hc
    have hlast : (quotation mark body).source.getLast? = some mark :=
      getLast?_of_closed (by rw [hbody])
    rw [hbody] at hlast
    dsimp only at hlast
    rw [List.getLast?_cons, hlast] at hc
    cases hc
    exact hmark
  intro c hc
  cases made_of_word h with
  | sign hmem _ =>
    exact isBlank_of_mem_sign hmem (List.mem_of_getLast? hc)
  | text hbody => exact hquote hbody (by decide) c hc
  | field hbody => exact hquote hbody (by decide) c hc
  | number _ hread =>
    exact isBlank_of_isWordPart (isWordPart_of_mem_numeral hread (List.mem_of_getLast? hc))
  | name _ hstart hrest _ =>
    rcases List.mem_cons.1 (List.mem_of_getLast? hc) with rfl | hc
    · exact isBlank_of_isNamePart (isNamePart_of_isNameStart hstart)
    · exact isBlank_of_isNamePart (hrest c hc)

end Lexeme

end GridFormula
