import GridFormula.Proofs.Arguments
import GridFormula.Proofs.TextLiterals

/-!
# Rows of words

A formula is a row of words at every depth: tokens with blanks between them, and separators where
the arguments of calls are set apart. A point in a text stands *between words* when the text in
front of it is a whole row, and *inside a word* when it cuts the word that comes next.

Words are found from left to right, and the scan that splits arguments and finds closing brackets
is not asked. It agrees all the same: between words it is outside of quotations, so that blanks
leave it where it is, and the separators and brackets that count for it are words of their own.

## Main definitions

* `Lexeme.Part`: a word, or a character that stands between words.
* `Lexeme.Between`, `Lexeme.InsideWord`: where a point in a text stands.

## Main results

* `Lexeme.Between.split`: in a row of words a point is between words or inside one.
* `Lexeme.Between.drop`: rows of words are read in one way only.
* `Lexeme.Between.isOutside`: between words the scan is outside of quotations.
-/

namespace GridFormula

open Text (isBlank allBlank)

namespace Lexeme

/-! ### Parts -/

/-- Whether `c` may stand between words: a blank, or a separator that is no token. -/
def isGap (c : Char) : Bool := isBlank c || c = ';' || c = ':'

/-- Characters that are **one part** of a text, in front of the text behind them. -/
inductive Part : List Char → List Char → Prop
  /-- A character between words. -/
  | gap {c : Char} {behind : List Char} : isGap c = true → Part [c] behind
  /-- A word. -/
  | word {source behind : List Char} {t : Token} : Word source t behind → Part source behind

/-- No word begins with a character that stands between words. -/
theorem Word.isGap_head {c : Char} {rest behind : List Char} {t : Token}
    (h : Word (c :: rest) t behind) : isGap c = false := by
  obtain ⟨_, _, ⟨⟩, hblank, -⟩ := id h
  have hsigns : ∀ sign ∈ signs, sign.1.head? ≠ some ';' ∧ sign.1.head? ≠ some ':' := by decide
  have hseparator : c ≠ ';' ∧ c ≠ ':' := by
    constructor
    all_goals
      rintro rfl
      cases made_of_word h with
      | sign hmem _ => simpa using hsigns _ hmem
      | number hdigit _ => exact absurd hdigit (by decide)
      | name _ hstart _ _ => exact absurd hstart (by decide)
  simp [isGap, hblank, hseparator]

variable {part before after behind : List Char}

theorem Part.ne_nil (h : Part part behind) : part ≠ [] := by
  cases h with
  | gap => exact List.cons_ne_nil _ _
  | word h =>
    obtain ⟨c, rest, rfl, -⟩ := h
    exact List.cons_ne_nil _ _

/-- A part of two characters or more is a word. -/
theorem Part.exists_word {left right : List Char} (h : Part (left ++ right) behind)
    (hleft : left ≠ []) (hright : right ≠ []) : ∃ t, Word (left ++ right) t behind := by
  generalize hpart : left ++ right = part at h
  cases h with
  | gap =>
    have hlength := congrArg List.length hpart
    have hleft := List.length_pos_iff.2 hleft
    have hright := List.length_pos_iff.2 hright
    simp only [List.length_append, List.length_singleton] at hlength
    omega
  | word h => exact ⟨_, h⟩

/-- A part depends on the **first character behind it** alone. -/
theorem Part.meets {behind' : List Char} (h : Part part behind) (hmeets : Meets behind behind') :
    Part part behind' := by
  cases h with
  | gap h => exact .gap h
  | word h => exact .word (h.meets hmeets)

/-- A text has **one first part**. -/
theorem Part.unique {part' behind' : List Char} (h : Part part behind) (h' : Part part' behind')
    (heq : part ++ behind = part' ++ behind') : part = part' := by
  cases h with
  | @gap c _ hc =>
    cases h' with
    | gap => exact congrArg (fun c => [c]) (List.cons.inj heq).1
    | word h' =>
      obtain ⟨d, rest, rfl, -⟩ := id h'
      rw [(List.cons.inj heq).1, h'.isGap_head] at hc
      cases hc
  | word h =>
    obtain ⟨c, rest, rfl, -, hread⟩ := id h
    cases h' with
    | @gap d _ hd =>
      rw [← (List.cons.inj heq).1, h.isGap_head] at hd
      cases hd
    | word h' =>
      obtain ⟨d, rest', rfl, -, hread'⟩ := id h'
      obtain ⟨rfl, hrest⟩ := List.cons.inj heq
      rw [List.append_eq, List.append_eq] at hrest
      rw [hrest, hread'] at hread
      exact (Lexeme.mk.inj hread).1.symm

/-! ### Points in a text -/

/-- The point between two texts stands **between words**: the first text is a row of parts in front
of the second one. -/
inductive Between : List Char → List Char → Prop
  /-- Nothing stands in front of the point. -/
  | nil {after : List Char} : Between [] after
  /-- A part, and a row of parts behind it. -/
  | cons {part before after : List Char} :
      Part part (before ++ after) → Between before after → Between (part ++ before) after

/-- The point between two texts stands **inside a word**, which has characters on both sides. -/
def InsideWord (before after : List Char) : Prop :=
  ∃ first left right rest t, before = first ++ left ∧ after = right ++ rest ∧
    left ≠ [] ∧ right ≠ [] ∧ Between first (left ++ after) ∧ Word (left ++ right) t rest

theorem Between.single (h : Part part after) : Between part after := by
  have hone : Between (part ++ []) after := .cons h .nil
  rwa [List.append_nil] at hone

theorem Between.append {first second : List Char} (hfirst : Between first (second ++ behind))
    (hsecond : Between second behind) : Between (first ++ second) behind := by
  generalize hall : second ++ behind = all at hfirst
  induction hfirst with
  | nil => exact hsecond
  | cons hpart _ ih =>
    subst hall
    rw [List.append_assoc]
    exact .cons (by rwa [List.append_assoc]) (ih rfl)

theorem between_of_allBlank {blanks : List Char} (h : allBlank blanks = true)
    (after : List Char) : Between blanks after := by
  induction blanks with
  | nil => exact .nil
  | cons c rest ih =>
    obtain ⟨hc, hrest⟩ : isBlank c = true ∧ allBlank rest = true := by simpa [allBlank] using h
    exact .cons (.gap (by simp [isGap, hc])) (ih hrest)

theorem Between.meets {after' : List Char} (h : Between before after)
    (hmeets : Meets after after') : Between before after' := by
  induction h with
  | nil => exact .nil
  | cons hpart _ ih => exact .cons (hpart.meets (hmeets.append _)) (ih hmeets)

/-- A text begins like any text that it is the beginning of. -/
theorem meets_of_append (text behind : List Char) : Meets (text ++ behind) text := by
  cases text with
  | nil => exact fun c hc => by cases hc
  | cons d rest => exact fun c hc => .inr hc

/-- Behind the parts of a row, **the rest of a row** is a row. -/
theorem Between.drop {first second : List Char} (h : Between (first ++ second) after)
    (hfirst : Between first (second ++ after)) : Between second after := by
  generalize hall : second ++ after = all at hfirst
  induction hfirst with
  | nil => exact h
  | @cons part first _ hpart _ ih =>
    subst hall
    refine ih ?_ rfl
    rw [List.append_assoc] at h
    generalize htext : part ++ (first ++ second) = text at h
    cases h with
    | nil => exact absurd (List.append_eq_nil_iff.1 htext).1 hpart.ne_nil
    | @cons part' rest _ hpart' hrest =>
      have heq : part = part' := by
        refine hpart.unique hpart' ?_
        rw [← List.append_assoc part', ← htext]
        simp
      subst heq
      rwa [List.append_cancel_left htext]

/-- A point between words does not cut the part in front of it: either it stands **in front of the
part**, or behind it. -/
theorem Between.uncons {rest : List Char} (h : Between before after) (hpart : Part part rest)
    (heq : part ++ rest = before ++ after) :
    before = [] ∨ ∃ before', before = part ++ before' ∧ rest = before' ++ after ∧
      Between before' after := by
  cases h with
  | nil => exact .inl rfl
  | @cons part' before' _ hpart' hbefore =>
    have hsame : part = part' := hpart.unique hpart' (by rw [heq, List.append_assoc])
    subst hsame
    rw [List.append_assoc] at heq
    exact .inr ⟨before', rfl, List.append_cancel_left heq, hbefore⟩

/-- In a row of words a point is **between words or inside one**. -/
theorem Between.split (h : Between (before ++ after) behind) :
    Between before (after ++ behind) ∨ InsideWord before (after ++ behind) := by
  generalize hall : before ++ after = all at h
  induction h generalizing before with
  | nil =>
    rw [(List.append_eq_nil_iff.1 hall).1]
    exact .inl .nil
  | @cons part rest behind hpart _ ih =>
    rcases List.append_eq_append_iff.1 hall with ⟨right, rfl, rfl⟩ | ⟨before', rfl, rfl⟩
    · -- the point stands in the part, or at one of its ends
      by_cases hbefore : before = []
      · rw [hbefore]
        exact .inl .nil
      by_cases hright : right = []
      · subst hright
        rw [List.append_nil] at hpart
        exact .inl (.single hpart)
      obtain ⟨t, hword⟩ := hpart.exists_word hbefore hright
      exact .inr ⟨[], before, right, rest ++ behind, t, rfl, by simp, hbefore, hright, .nil, hword⟩
    · rcases ih rfl with hbetween |
        ⟨first, left, right, rest, t, rfl, hafter, hleft, hright, hfirst, hword⟩
      · rw [List.append_assoc] at hpart
        exact .inl (.cons hpart hbetween)
      · refine .inr ⟨part ++ first, left, right, rest, t, by simp, hafter, hleft, hright, ?_, hword⟩
        exact .cons (by simpa using hpart) hfirst

/-- A point between words is **not inside** one. -/
theorem Between.not_insideWord (h : Between before after) : ¬InsideWord before after := by
  rintro ⟨first, left, right, rest, t, rfl, rfl, hleft, hright, hfirst, hword⟩
  rcases (h.drop hfirst).uncons (.word hword) (List.append_assoc ..) with hnil | ⟨_, heq, -, -⟩
  · exact hleft hnil
  · have hlength := congrArg List.length heq
    rw [List.append_assoc, List.length_append, List.length_append] at hlength
    have hpos := List.length_pos_iff.2 hright
    omega

/-! ### What ends a word -/

/-- Whether `c` **ends** every word in front of it. -/
def isEnd (c : Char) : Bool := isGap c || c = ',' || c = ')'

theorem isWordPart_of_isEnd {c : Char} (h : isEnd c = true) : isWordPart c = false := by
  simp only [isEnd, isGap, Bool.or_eq_true, decide_eq_true_eq] at h
  rcases h with (((h | rfl) | rfl) | rfl) | rfl
  · cases hpart : isWordPart c with
    | false => rfl
    | true =>
      rw [isBlank_of_isWordPart hpart] at h
      cases h
  all_goals decide

theorem stopsAs_of_isEnd {behind' : List Char} (h : ∀ c ∈ behind'.head?, isEnd c = true) :
    StopsAs behind behind' := by
  have hstop : ∀ {p : Char → Bool}, (∀ c, p c = true → isWordPart c = true) →
      ∀ c ∈ behind'.head?, p c = false := by
    intro p hp c hc
    cases hpc : p c with
    | false => rfl
    | true => exact nomatch (isWordPart_of_isEnd (h c hc)).symm.trans (hp c hpc)
  have hname : ∀ c, isNamePart c = true → isWordPart c = true := by
    intro c hc
    simp [isWordPart, hc]
  simp only [StopsAs, List.forall_mem_cons, List.not_mem_nil, false_imp_iff, implies_true, and_true]
  exact ⟨fun _ => hstop fun c => isWordPart_of_isNumeralPart,
    fun _ => hstop fun c hc => hname c (isNamePart_of_isDigit hc),
    fun _ => hstop fun c hc => hname c (isNamePart_of_isExponentMark hc)⟩

/-- No sign goes on with a character that ends every word. -/
theorem ne_of_isEnd {source : List Char} {t : Token} (h : (source, t) ∈ signs) {c : Char}
    (hc : isEnd c = true) {longer : List Char × Token} (hlonger : longer ∈ signs) :
    longer.1 ≠ source ++ [c] := by
  have hsource : ∀ sign ∈ signs, sign.1 ≠ [] := by decide
  have hlast : ∀ sign ∈ signs, sign.1.tail.all (fun c => !isEnd c) = true := by decide
  intro heq
  have htail := hlast longer hlonger
  obtain ⟨d, rest, hcons⟩ := List.exists_cons_of_ne_nil (hsource _ h)
  dsimp only at hcons
  simp [heq, hcons, hc] at htail

/-- A word stays one in front of a character that **ends every word**. -/
theorem Made.ends {source behind' : List Char} {t : Token} (h : Made source t behind)
    (hends : ∀ c ∈ behind'.head?, isEnd c = true) : Made source t behind' := by
  cases h with
  | sign hmem _ => exact .sign hmem fun c hc longer => ne_of_isEnd hmem (hends c hc)
  | text hbody => exact .text hbody
  | field hbody => exact .field hbody
  | number hdigit hread => exact .number hdigit (ofNumeral_stopsAs hread (stopsAs_of_isEnd hends))
  | name hdigit hstart hrest _ =>
    refine .name hdigit hstart hrest fun c hc => ?_
    have hpart := isWordPart_of_isEnd (hends c hc)
    simp only [isWordPart, Bool.or_eq_false_iff] at hpart
    exact hpart.1.1.1

theorem Part.ends {behind' : List Char} (h : Part part behind)
    (hends : ∀ c ∈ behind'.head?, isEnd c = true) : Part part behind' := by
  cases h with
  | gap h => exact .gap h
  | word h => exact .word (word_of_made ((made_of_word h).ends hends))

/-- A row of words stays one in front of a character that **ends every word**. -/
theorem Between.ends {after' : List Char} (h : Between before after)
    (hends : ∀ c ∈ after'.head?, isEnd c = true) : Between before after' := by
  induction h with
  | nil => exact .nil
  | @cons part before _ hpart _ ih =>
    refine .cons ?_ ih
    cases before with
    | nil => exact hpart.ends hends
    | cons c rest => exact hpart.meets fun d hd => .inr hd

/-- A mark is a part wherever it stands. -/
theorem part_mark {c : Char} {t : Token} (h : IsMark c t) (behind : List Char) : Part [c] behind :=
  .word (word_of_made (made_mark h behind))

/-- A separator of arguments is a part, and ends the words in front of it. -/
theorem part_separator {sep : Char} (h : isSeparator sep = true) (behind : List Char) :
    Part [sep] behind ∧ isEnd sep = true := by
  simp only [isSeparator, Bool.or_eq_true, decide_eq_true_eq] at h
  rcases h with (rfl | rfl) | rfl
  · exact ⟨.gap rfl, rfl⟩
  · have hcomma : IsMark ',' .comma := by decide
    exact ⟨part_mark hcomma behind, rfl⟩
  · exact ⟨.gap rfl, rfl⟩

/-! ### The scan along a row -/

section Scan

open Scan (Closed State splitAtTop hasSeparatorFrom)

/-- A bracket is a word of **one character**. -/
theorem Made.exists_bracket {source : List Char} {t : Token} (h : Made source t behind)
    (ht : isBracketToken t = true) : ∃ c, source = [c] ∧ isBracket c = true := by
  have hsigns : signs.all (fun sign => !isBracketToken sign.2 ||
      sign.1.length = 1 && sign.1.all isBracket) = true := by decide
  cases h with
  | sign hmem _ =>
    have hsign := List.all_eq_true.1 hsigns _ hmem
    simp only [ht, Bool.not_true, Bool.false_or, Bool.and_eq_true, decide_eq_true_eq] at hsign
    obtain ⟨c, rfl⟩ := List.length_eq_one_iff.1 hsign.1
    exact ⟨c, rfl, by simpa using hsign.2⟩
  | text | field | number | name => cases ht

/-- A part is **closed**, or it is one bracket. -/
theorem Part.closed_or (h : Part part behind) :
    Closed part ∨ ∃ c, part = [c] ∧ isBracket c = true := by
  cases h with
  | @gap c _ hc =>
    refine .inl (Scan.closed_of_isPlain fun d hd => ?_)
    obtain rfl : d = c := by simpa using hd
    simp only [isGap, Bool.or_eq_true, decide_eq_true_eq] at hc
    rcases hc with (hc | rfl) | rfl
    · exact Scan.isPlain_of_isBlank hc
    · decide
    · decide
  | @word _ _ t hword =>
    cases ht : isBracketToken t with
    | false => exact .inl (closed_of_made (made_of_word hword) ht).1
    | true => exact .inr ((made_of_word hword).exists_bracket ht)

/-- No bracket is a backslash or a quotation mark. -/
theorem isOutside_step {s : State} (hs : s.isOutside = true) {c : Char}
    (hc : isBracket c = true) : (s.step c).isOutside = true := by
  have hplain : c ≠ '\\' ∧ isQuote c = false := by
    simp only [isBracket, Bool.or_eq_true, decide_eq_true_eq] at hc
    rcases hc with ((((rfl | rfl) | rfl) | rfl) | rfl) | rfl <;> decide
  rw [State.eq_of_isOutside hs]
  simp [State.step, hplain, State.isOutside]

theorem Part.isOutside {s : State} (h : Part part behind) (hs : s.isOutside = true) :
    (s.run part).isOutside = true := by
  rcases h.closed_or with hclosed | ⟨c, rfl, hc⟩
  · rwa [hclosed.run_of_isOutside hs]
  · exact isOutside_step hs hc

/-- **Between words** the scan is outside of quotations, and nothing is escaped. -/
theorem Between.isOutside {s : State} (h : Between before after) (hs : s.isOutside = true) :
    (s.run before).isOutside = true := by
  induction h generalizing s with
  | nil => exact hs
  | cons hpart _ ih =>
    rw [State.run_append]
    exact ih (hpart.isOutside hs)

theorem exists_level_of_isSeparator {sep : Char} (h : isSeparator sep = true) :
    ∃ level : Level, level.separator? = some sep := by
  simp only [isSeparator, Bool.or_eq_true, decide_eq_true_eq] at h
  rcases h with (rfl | rfl) | rfl
  · exact ⟨.semicolon, rfl⟩
  · exact ⟨.comma, rfl⟩
  · exact ⟨.colon, rfl⟩

theorem Made.eq_comma {source : List Char} (h : Made source .comma behind) : source = [','] := by
  have hsigns : ∀ sign ∈ signs, sign.2 = .comma → sign.1 = [','] := by decide
  cases h with
  | sign hmem _ => exact hsigns _ hmem rfl

/-- A separator of arguments that counts for the scan is **a part of its own**. -/
theorem Part.eq_separator_or {sep : Char} (hsep : isSeparator sep = true) {s : State}
    (h : Part part behind) (hs : s.isOutside = true) :
    part = [sep] ∨ hasSeparatorFrom sep s part = false := by
  have hone : ∀ c, [c] = [sep] ∨ hasSeparatorFrom sep s [c] = false := by
    intro c
    by_cases hc : sep = c
    · exact .inl (by rw [hc])
    · exact .inr (Scan.hasSeparatorFrom_of_notMem (by simpa using hc) s)
  cases h with
  | gap => exact hone _
  | @word _ _ t hword =>
    have hmade := made_of_word hword
    cases ht : isBracketToken t with
    | true =>
      obtain ⟨c, rfl, -⟩ := hmade.exists_bracket ht
      exact hone c
    | false =>
      obtain ⟨hclosed, hundivided⟩ := closed_of_made hmade ht
      by_cases hcomma : t = .comma
      · subst hcomma
        rw [hmade.eq_comma]
        exact hone ','
      · refine .inr ?_
        cases htop : s.isTop with
        | true =>
          obtain ⟨level, hlevel⟩ := exists_level_of_isSeparator hsep
          rw [(State.isTop_iff s).1 htop]
          exact hundivided hcomma hlevel
        | false =>
          obtain ⟨g, rfl⟩ := State.exists_group_of_isOutside hs htop
          exact Scan.hasSeparatorFrom_of_splitAtTop rfl (hclosed.splitAtTop_eq g) sep

/-- Behind a bracket that closes a group for the scan, **the rest of a row** is a row. -/
theorem Between.of_splitAtTop {s : State} (h : Between before after) (hs : s.isOutside = true)
    (htop : s.isTop = false) {inner outside : List Char}
    (hsplit : splitAtTop s before = some (inner, outside)) : Between outside after := by
  induction h generalizing s inner with
  | nil => cases hsplit
  | @cons part rest _ hpart hrest ih =>
    rcases hpart.closed_or with hclosed | ⟨c, rfl, hc⟩
    · obtain ⟨g, rfl⟩ := State.exists_group_of_isOutside hs htop
      rw [Scan.splitAtTop_append_of_none (hclosed.splitAtTop_eq g), hclosed.run_eq] at hsplit
      obtain ⟨⟨inner', _⟩, hcut, heq⟩ := Option.map_eq_some_iff.1 hsplit
      cases heq
      exact ih rfl rfl hcut
    · rcases Scan.splitAtTop_cons_eq_some_iff.1 hsplit with
        ⟨-, rfl, rfl⟩ | ⟨hstep, inner', rfl, hcut⟩
      · exact hrest
      · exact ih (isOutside_step hs hc) hstep hcut

/-- Blanks that are **put in** between words do not change where a group is closed. -/
theorem Between.splitAtTop_insert {s : State} (h : Between before after) (hs : s.isOutside = true)
    (htop : s.isTop = false) {blanks : List Char} (hblanks : allBlank blanks = true)
    {rest inner outside : List Char}
    (hsplit : splitAtTop s (before ++ rest) = some (before ++ inner, outside)) :
    splitAtTop s (before ++ (blanks ++ rest)) = some (before ++ (blanks ++ inner), outside) := by
  have hnone : splitAtTop s before = none := by
    cases hbefore : splitAtTop s before with
    | none => rfl
    | some cut =>
      obtain ⟨c, rfl⟩ := Scan.eq_of_splitAtTop hbefore
      have happend := Scan.splitAtTop_append hbefore (cut.2 ++ rest)
      rw [List.append_assoc, List.cons_append, happend] at hsplit
      have hlength := congrArg List.length (Prod.mk.inj (Option.some.inj hsplit)).1
      simp only [List.length_append, List.length_cons] at hlength
      omega
  obtain ⟨g, hrun⟩ := State.exists_group_of_isOutside (h.isOutside hs)
    (Scan.isTop_run_of_splitAtTop htop hnone)
  have hclosed := Scan.closed_of_allBlank hblanks
  rw [Scan.splitAtTop_append_of_none hnone, hrun] at hsplit ⊢
  obtain ⟨⟨inner', _⟩, hcut, heq⟩ := Option.map_eq_some_iff.1 hsplit
  obtain ⟨hinner, rfl⟩ := Prod.mk.inj heq
  rw [Scan.splitAtTop_append_of_none (hclosed.splitAtTop_eq g), hclosed.run_eq, hcut,
    ← List.append_cancel_left hinner]
  rfl

end Scan

end Lexeme

end GridFormula
