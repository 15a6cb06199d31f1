import GridFormula.Proofs.Cursor
import GridFormula.Proofs.Items
import GridFormula.Proofs.Printing

/-!
# Text literals

A text is printed between double quotes, with a backslash before each quote and each backslash. The
printed form has one reading. The reader of tokens takes it back for the text and stops behind it,
the scan on bytes finds its last quote from its first, and to a scan that comes by from outside it
is as if it were not there: whatever the text holds, no separator is reported in it, and no bracket
in it opens or closes a group.

What is not there can be put in. A closed text that is put into another leaves what a scan finds in
front of it where it was and moves what is found behind it by its size. A quotation is closed, by
the grammar of what stands between its marks, and the literal is such a quotation.

## Main definitions

* `Scan.State.isOutside`: no quotation is open and nothing is escaped.
* `Scan.shifted`: where a byte stands after others have been put in.

## Main results

* `Scan.Closed.separatorAt_inserted`, `Scan.Closed.cutAt_inserted`: what a closed text moves.
* `Value.text_literal_has_one_reading`: token reader and scan agree on where a literal ends.
-/

namespace GridFormula

open Text (byteLength utf8Bytes)

namespace Scan

/-! ### Outside of quotations -/

/-- Whether no quotation is open and nothing is **escaped**. A group may be open. -/
def State.isOutside (s : State) : Bool := s.quote.isNone && !s.escaped

theorem State.eq_of_isOutside {s : State} (h : s.isOutside = true) :
    s = ⟨s.group, none, false⟩ := by
  obtain ⟨group, quote, escaped⟩ := s
  simp only [isOutside, Bool.and_eq_true, Option.isNone_iff_eq_none, Bool.not_eq_true'] at h
  rw [h.1, h.2]

/-- Outside and not at the top the scan is in a group. -/
theorem State.exists_group_of_isOutside {s : State} (h : s.isOutside = true)
    (htop : s.isTop = false) : ∃ g, s = ⟨some g, none, false⟩ := by
  have hs := eq_of_isOutside h
  cases hgroup : s.group with
  | none =>
    rw [hs, hgroup] at htop
    cases htop
  | some g => exact ⟨g, by rw [hs, hgroup]⟩

theorem Closed.run_of_isOutside {text : List Char} (h : Closed text) {s : State}
    (hs : s.isOutside = true) : s.run text = s := by
  rw [State.eq_of_isOutside hs]
  exact h.run_eq s.group

/-! ### Putting a closed text in -/

/-- Where a byte at `position` stands after `size` bytes have been **put in** at `place`. -/
def shifted (place size position : Nat) : Nat :=
  if position < place then position else position + size

theorem shifted_of_lt {place position : Nat} (h : position < place) (size : Nat) :
    shifted place size position = position := if_pos h

theorem shifted_add (place size n : Nat) : shifted place size (place + n) = place + size + n := by
  rw [shifted, if_neg (Nat.not_lt.2 (Nat.le_add_right ..)), Nat.add_right_comm]

/-- What is cut behind a text is cut so much later. -/
theorem cutAt_append (position : Nat) (first : List Char) (cut : Option (List Char × List Char)) :
    cutAt position (cut.map fun cut => (first ++ cut.1, cut.2)) =
      cutAt (position + byteLength first) cut := by
  cases cut with
  | none => rfl
  | some cut => simp [cutAt, Text.byteLength_append, Nat.add_assoc]

theorem map_shifted_cutAt (place size : Nat) (cut : Option (List Char × List Char)) :
    (cutAt place cut).map (shifted place size) = cutAt (place + size) cut := by
  cases cut with
  | none => rfl
  | some cut => exact congrArg some (shifted_add place size (byteLength cut.1))

theorem map_shifted_separatorAt (sep : Char) (place size : Nat) (s : State) (rest : List Char) :
    (separatorAt sep place s rest).map (shifted place size) =
      separatorAt sep (place + size) s rest := by
  rw [separatorAt, separatorAt]
  split
  · exact congrArg some (shifted_add place size _)
  · rfl

theorem separatorAt_cons (sep : Char) (position : Nat) (s : State) (c : Char)
    (rest : List Char) :
    separatorAt sep position s (c :: rest) =
      if s.isTop && c = sep then some position
      else separatorAt sep (position + c.utf8Size) (s.step c) rest := by
  cases hcut : s.isTop && c = sep with
  | true => simp [separatorAt, hasSeparatorFrom, piecesFrom, hcut]
  | false =>
    simp [separatorAt, hasSeparatorFrom, piecesFrom, hcut, Text.byteLength_cons, Nat.add_assoc]

/-- A separator in front is found in front, **whatever stands behind**. -/
theorem separatorAt_append_of_some {sep : Char} {position found : Nat} {s : State}
    {first : List Char} (h : separatorAt sep position s first = some found)
    (rest : List Char) :
    separatorAt sep position s (first ++ rest) = some found ∧
      found < position + byteLength first := by
  induction first generalizing position s with
  | nil => cases h
  | cons c first ih =>
    rw [separatorAt_cons] at h
    rw [List.cons_append, separatorAt_cons, Text.byteLength_cons]
    have hpos := Char.utf8Size_pos c
    split at h
    · next hsep =>
      cases h
      exact ⟨if_pos hsep, by omega⟩
    · next hsep =>
      obtain ⟨hfound, hlt⟩ := ih h
      rw [if_neg hsep]
      exact ⟨hfound, by omega⟩

theorem separatorAt_eq_none_iff {sep : Char} {position : Nat} {s : State} {text : List Char} :
    separatorAt sep position s text = none ↔ hasSeparatorFrom sep s text = false := by
  rw [← isSome_separatorAt sep position, Option.isSome_eq_false_iff, Option.isNone_iff_eq_none]

section Inserted

variable {text : List Char} (h : Closed text)
include h

/-- A closed text that separates nothing, **put in** outside of quotations, moves the separators
behind it and no others. -/
theorem Closed.separatorAt_inserted {sep : Char} {before : List Char}
    (hbefore : (State.top.run before).isOutside = true)
    (hnone : hasSeparatorFrom sep (State.top.run before) text = false) (behind : List Char) :
    separatorAt sep 0 .top (before ++ (text ++ behind)) =
      (separatorAt sep 0 .top (before ++ behind)).map
        (shifted (byteLength before) (byteLength text)) := by
  cases hfirst : separatorAt sep 0 .top before with
  | some found =>
    obtain ⟨hwith, hlt⟩ := separatorAt_append_of_some hfirst (text ++ behind)
    obtain ⟨hwithout, -⟩ := separatorAt_append_of_some hfirst behind
    rw [Nat.zero_add] at hlt
    rw [hwith, hwithout, Option.map_some, shifted_of_lt hlt]
  | none =>
    rw [separatorAt_eq_none_iff] at hfirst
    rw [separatorAt_append hfirst, separatorAt_append hfirst, separatorAt_append hnone,
      h.run_of_isOutside hbefore, Nat.zero_add, map_shifted_separatorAt]

/-- A closed text, put into a group outside of quotations, moves the end of the group, unless the
group ends **in front of it**. -/
theorem Closed.cutAt_inserted {s : State} (hs : s.isTop = false) {before : List Char}
    (hbefore : (s.run before).isOutside = true) (position : Nat) (behind : List Char) :
    cutAt position (splitAtTop s (before ++ (text ++ behind))) =
      (cutAt position (splitAtTop s (before ++ behind))).map
        (shifted (position + byteLength before) (byteLength text)) := by
  cases hcut : splitAtTop s before with
  | some cut =>
    obtain ⟨front, back⟩ := cut
    obtain ⟨c, rfl⟩ := eq_of_splitAtTop hcut
    have hcuts (more : List Char) : splitAtTop s (front ++ c :: back ++ more) =
        some (front, back ++ more) := by
      rw [List.append_assoc]
      exact splitAtTop_append hcut (back ++ more)
    have hlt : position + byteLength front < position + byteLength (front ++ c :: back) := by
      rw [Text.byteLength_append, Text.byteLength_cons]
      have hpos := Char.utf8Size_pos c
      omega
    rw [hcuts, hcuts]
    exact congrArg some (shifted_of_lt hlt _).symm
  | none =>
    obtain ⟨g, hg⟩ := State.exists_group_of_isOutside hbefore (isTop_run_of_splitAtTop hs hcut)
    rw [splitAtTop_append_of_none hcut, splitAtTop_append_of_none hcut, hg,
      splitAtTop_append_of_none (h.splitAtTop_eq g), h.run_eq, cutAt_append, cutAt_append,
      cutAt_append, map_shifted_cutAt]

/-- What a closed text moves when it is put in, on bytes: **separators**. -/
theorem Closed.separatorFrom_inserted {sep : Char} (hsep : sep.toNat < 0x80)
    {before : List Char} (hbefore : (State.top.run before).isOutside = true)
    (hnone : hasSeparatorFrom sep (State.top.run before) text = false) (behind : List Char) :
    hasSeparator sep (before ++ (text ++ behind)) = hasSeparator sep (before ++ behind) ∧
      separatorFrom (utf8Bytes (before ++ (text ++ behind))) sep 0 =
        Option.map (shifted (byteLength before) (byteLength text)) <$>
          separatorFrom (utf8Bytes (before ++ behind)) sep 0 := by
  have hinserted := h.separatorAt_inserted hbefore hnone behind
  constructor
  · rw [hasSeparator, hasSeparator, ← isSome_separatorAt sep 0, ← isSome_separatorAt sep 0,
      hinserted, Option.isSome_map]
  · rw [separatorFrom_eq hsep (TailAt.whole _), separatorFrom_eq hsep (TailAt.whole _), hinserted]
    rfl

/-- What a closed text moves when it is put in, on bytes: the **end of a group** around it. -/
theorem Closed.bracketEnd_inserted {bracket : Bracket} {inner : List Char}
    (hinner : ((State.inside bracket).run inner).isOutside = true) (front behind : List Char) :
    bracketEnd (utf8Bytes (front ++ bracket.opener :: (inner ++ (text ++ behind)))) bracket
        (byteLength front) =
      Option.map (shifted (byteLength (front ++ bracket.opener :: inner)) (byteLength text)) <$>
        bracketEnd (utf8Bytes (front ++ bracket.opener :: (inner ++ behind))) bracket
          (byteLength front) := by
  have hplace : byteLength (front ++ bracket.opener :: inner) =
      byteLength front + 1 + byteLength inner := by
    rw [Text.byteLength_append, Text.byteLength_cons, utf8Size_opener, Nat.add_assoc]
  rw [bracketEnd_of_tailAt ⟨front, rfl, rfl⟩, bracketEnd_of_tailAt ⟨front, rfl, rfl⟩,
    splitAtCloser, splitAtCloser, h.cutAt_inserted rfl hinner, hplace]
  rfl

end Inserted

/-! ### Quotations -/

section Quotations

variable {mark : Char} {body : List Char} (hmark : isQuote mark = true)
  (hbody : QuotedBody mark body)
include hmark hbody

/-- The scan on bytes finds the **last mark** of a quotation from its first. -/
theorem QuotedBody.quoteEnd_quotation (before behind : List Char) :
    quoteEnd (utf8Bytes (before ++ (mark :: (body ++ [mark]) ++ behind))) (byteLength before) =
      .ok (some (byteLength (before ++ mark :: body))) := by
  have hcut := hbody.splitAtTop_append hmark behind
  have htail : TailAt (before ++ (mark :: (body ++ [mark]) ++ behind)) (byteLength before)
      (mark :: (body ++ mark :: behind)) := ⟨before, by simp, rfl⟩
  rw [quoteEnd_of_tailAt hmark htail, hcut, Text.byteLength_append, Text.byteLength_cons,
    utf8Size_of_isQuote hmark, ← Nat.add_assoc]
  rfl

/-- A quotation is **closed**. -/
theorem QuotedBody.closed_quotation : Closed (mark :: (body ++ [mark])) := by
  refine ⟨fun group => ?_, fun g => ?_⟩
  · rw [State.run_cons, step_of_isQuote hmark, State.run_append, (hbody.leads group).run_eq,
      State.run_cons, step_mark hmark, State.run_nil]
  · have hleads : Leads ⟨some g, none, false⟩ (mark :: (body ++ [mark])) ⟨some g, none, false⟩ :=
      .cons (step_of_isQuote hmark (some g)) rfl
        ((hbody.leads (some g)).append (.cons (step_mark hmark (some g)) rfl (.nil _)))
    exact hleads.splitAtTop_eq

/-- Nothing in a quotation separates but its **first mark**, which does if it is the separator. -/
theorem QuotedBody.hasSeparatorFrom_quotation {s : State} (hs : s.isOutside = true)
    {sep : Char} (hsep : s.isTop = true → mark ≠ sep) :
    hasSeparatorFrom sep s (mark :: (body ++ [mark])) = false := by
  cases htop : s.isTop with
  | true =>
    rw [(State.isTop_iff s).1 htop]
    exact (IsItem.quotation hmark hbody).crossed.hasSeparator_eq (by simpa using hsep htop)
  | false =>
    obtain ⟨g, rfl⟩ := State.exists_group_of_isOutside hs htop
    exact hasSeparatorFrom_of_splitAtTop htop
      ((hbody.closed_quotation hmark).splitAtTop_eq g) sep

/-- No separator is found **inside** a quotation: it is found in front, at the first mark, or behind
the last one. -/
theorem QuotedBody.le_of_separatorFrom {before behind : List Char}
    (hbefore : (State.top.run before).isOutside = true) {sep : Char} {found : Nat}
    (hsep : sep.toNat < 0x80)
    (h : separatorFrom (utf8Bytes (before ++ (mark :: (body ++ [mark]) ++ behind))) sep 0 =
      .ok (some found)) :
    found ≤ byteLength before ∨ byteLength (before ++ mark :: (body ++ [mark])) ≤ found := by
  rw [separatorFrom_eq hsep (TailAt.whole _), Except.ok.injEq] at h
  by_cases hfree : (State.top.run before).isTop = true → mark ≠ sep
  · have hnone := hbody.hasSeparatorFrom_quotation hmark hbefore hfree
    rw [(hbody.closed_quotation hmark).separatorAt_inserted hbefore hnone,
      Option.map_eq_some_iff] at h
    obtain ⟨found, -, rfl⟩ := h
    rw [Text.byteLength_append, shifted]
    split <;> omega
  · -- the first mark separates, unless something in front does
    rw [Classical.not_imp, not_ne_iff] at hfree
    obtain ⟨htop, rfl⟩ := hfree
    cases hfirst : separatorAt mark 0 .top before with
    | some earlier =>
      obtain ⟨hearlier, hlt⟩ :=
        separatorAt_append_of_some hfirst (mark :: (body ++ [mark]) ++ behind)
      rw [hearlier, Option.some.injEq] at h
      omega
    | none =>
      rw [separatorAt_eq_none_iff] at hfirst
      rw [separatorAt_append hfirst, List.cons_append, separatorAt_cons, if_pos (by simp [htop]),
        Option.some.injEq] at h
      omega

end Quotations

end Scan

/-! ### Literals of texts -/

namespace Value

open Scan (QuotedBody quoteEnd separatorFrom bracketEnd hasSeparator shifted)

/-- Between the quotes of a literal no quote stands but behind a backslash. -/
theorem exists_quotedBody (text : List Char) :
    ∃ body, quoted text = '"' :: (body ++ ['"']) ∧ QuotedBody '"' body := by
  refine ⟨_, rfl, ?_⟩
  induction text with
  | nil => exact .nil
  | cons c rest ih =>
    rw [List.flatMap_cons]
    split
    · exact .escape c ih
    · next h =>
      simp only [Bool.or_eq_true, decide_eq_true_eq, not_or] at h
      exact .char h.2 h.1 ih

/-- The token reader takes the literal for its text and **stops behind it**. -/
theorem ofTextAt_text_literal (s : String) (position : Nat) (behind : List Char) :
    TokenStream.ofTextAt position ((text s).literal ++ behind) =
      .token (.text s) ⟨position, position + byteLength (text s).literal⟩
        (TokenStream.ofTextAt (position + byteLength (text s).literal) behind) := by
  have hword : Lexeme.Word (quoted s.toList) (.text s) behind :=
    Lexeme.word_of_made (Lexeme.made_quoted s behind)
  have hblanks : Text.allBlank [] = true := rfl
  exact TokenStream.ofTextAt_word position hblanks hword nofun

/-- A text literal has **one reading**. Wherever it stands, the next token is its text and ends
where the literal does, and the scan on bytes finds its last quote from its first. Where the scan
comes to it from outside of quotations, no separator is found inside it. Separators other than the
quote itself are found as if the literal were not there, and so is the end of a group around it. -/
theorem text_literal_has_one_reading (s : String) (before behind : List Char) :
    Cursor.nextToken (before ++ ((text s).literal ++ behind)) (byteLength before) =
        Run.answer (.ok ⟨some (.text s),
          ⟨byteLength before, byteLength (before ++ (text s).literal)⟩⟩) ∧
      TokenStream.ofTextAt (byteLength before) ((text s).literal ++ behind) =
        .token (.text s) ⟨byteLength before, byteLength (before ++ (text s).literal)⟩
          (TokenStream.ofTextAt (byteLength (before ++ (text s).literal)) behind) ∧
      (text s).literal.head? = some '"' ∧ (text s).literal.getLast? = some '"' ∧
      quoteEnd (utf8Bytes (before ++ ((text s).literal ++ behind))) (byteLength before) =
        .ok (some (byteLength (before ++ (text s).literal.dropLast))) ∧
      (∀ sep : Char, sep.toNat < 0x80 → (Scan.State.top.run before).isOutside = true →
        (∀ position, separatorFrom (utf8Bytes (before ++ ((text s).literal ++ behind))) sep 0 =
            .ok (some position) →
          position ≤ byteLength before ∨ byteLength (before ++ (text s).literal) ≤ position) ∧
        (sep ≠ '"' →
          hasSeparator sep (before ++ ((text s).literal ++ behind)) =
              hasSeparator sep (before ++ behind) ∧
            separatorFrom (utf8Bytes (before ++ ((text s).literal ++ behind))) sep 0 =
              Option.map (shifted (byteLength before) (byteLength (text s).literal)) <$>
                separatorFrom (utf8Bytes (before ++ behind)) sep 0)) ∧
      ∀ (bracket : Bracket) (inner : List Char),
        ((Scan.State.inside bracket).run inner).isOutside = true →
          bracketEnd (utf8Bytes (before ++ bracket.opener ::
              (inner ++ ((text s).literal ++ behind)))) bracket (byteLength before) =
            Option.map (shifted (byteLength (before ++ bracket.opener :: inner))
                (byteLength (text s).literal)) <$>
              bracketEnd (utf8Bytes (before ++ bracket.opener :: (inner ++ behind))) bracket
                (byteLength before) := by
  obtain ⟨body, hquoted, hbody⟩ := exists_quotedBody s.toList
  have hmark : isQuote '"' = true := rfl
  have hliteral : (text s).literal = '"' :: (body ++ ['"']) := by rw [literal, hquoted]
  have hlast : (text s).literal = '"' :: body ++ ['"'] := hliteral
  have hclosed : Scan.Closed (text s).literal := hliteral ▸ hbody.closed_quotation hmark
  have hstream := ofTextAt_text_literal s (byteLength before) behind
  rw [← Text.byteLength_append] at hstream
  refine ⟨?_, hstream, ?_, ?_, ?_, fun sep hsep hbefore => ⟨fun position hposition => ?_, ?_⟩,
    fun bracket inner hinner => hclosed.bracketEnd_inserted hinner before behind⟩
  · rw [Cursor.nextToken_eq ⟨before, rfl, rfl⟩, hstream]
    rfl
  · rw [hliteral, List.head?_cons]
  · rw [hlast, List.getLast?_concat]
  · rw [hlast, List.dropLast_concat]
    exact hbody.quoteEnd_quotation hmark before behind
  · rw [hliteral] at hposition ⊢
    exact hbody.le_of_separatorFrom hmark hbefore hsep hposition
  · intro hne
    have hnone := hbody.hasSeparatorFrom_quotation hmark hbefore (fun _ => hne.symm)
    exact hclosed.separatorFrom_inserted hsep hbefore (hliteral ▸ hnone) behind

/-- The comma and the parenthesis that are found in `("),"),` are those behind the literal. -/
theorem text_literal_hides_closer :
    ','.toNat < 0x80 ∧ (Scan.State.top.run []).isOutside = true ∧
      ((Scan.State.inside .round).run []).isOutside = true ∧
      separatorFrom (utf8Bytes ((text "),").literal ++ [')', ','])) ',' 0 = .ok (some 5) ∧
      bracketEnd (utf8Bytes ('(' :: ((text "),").literal ++ [')', ',']))) .round 0 =
        .ok (some 5) := by
  obtain ⟨-, -, -, -, -, hseparators, hgroups⟩ :=
    text_literal_has_one_reading ")," [] [')', ',']
  obtain ⟨-, hseparator⟩ := hseparators ',' (by decide) rfl
  have hgroup := hgroups .round [] rfl
  have hwithout : separatorFrom (utf8Bytes [')', ',']) ',' 0 = .ok (some 1) :=
    Scan.separatorFrom_eq (by decide) (TailAt.whole _)
  have hwithout' : bracketEnd (utf8Bytes ['(', ')', ',']) .round 0 = .ok (some 1) :=
    Scan.bracketEnd_eq ['(', ')', ','] .round 0
  refine ⟨by decide, rfl, rfl, (hseparator (by decide)).2.trans ?_, hgroup.trans ?_⟩
  · exact congrArg (Option.map (shifted 0 4) <$> ·) hwithout
  · exact congrArg (Option.map (shifted 1 4) <$> ·) hwithout'

end Value

end GridFormula
