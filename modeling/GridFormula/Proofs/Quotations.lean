import GridFormula.Proofs.ByteScan
import GridFormula.Proofs.Cursor
import GridFormula.Proofs.Words

/-!
# Where quotations end

A quotation is read twice. The scan looks for the byte that closes it and goes over two bytes at a
backslash, whatever character they belong to. The reading of tokens goes over characters, and says
what the quotation means. Both find the same mark, or none.

The two are compared on characters, where the scan runs from behind the opening mark until it is at
the top. The invariant is that between two steps of the reading the scan is in the quotation, with
no backslash pending.

## Main definitions

* `Lexeme.Quotation.EndsAt`: a quotation, against where the scan is at the top.
* `Cursor.EndsAsScanned`: what is read of a quotation, against the byte that the scan finds.

## Main results

* `Lexeme.endsAt_quotation`: a quotation ends with the mark that leads the scan to the top.
* `Cursor.endsAsScanned_quoted`: a quotation is read up to the byte that closes it for the scan.
-/

namespace GridFormula

open Text (byteLength)

namespace Lexeme

/-- A quotation **ends** with the mark at which a text is cut, and is never closed if it is not
cut. -/
def Quotation.EndsAt (mark : Char) (q : Quotation) : Option (List Char × List Char) → Prop
  | some (before, behind) => ∃ content, q = ⟨some content, before ++ [mark], behind⟩
  | none => q.content = none

variable {mark : Char}

theorem Quotation.EndsAt.push {q : Quotation} {cut : Option (List Char × List Char)}
    (h : q.EndsAt mark cut) (written : List Char) (c : Char) :
    (q.push written c).EndsAt mark (cut.map fun cut => (written ++ cut.1, cut.2)) := by
  cases cut with
  | none => exact congrArg (Option.map (c :: ·)) h
  | some cut =>
    obtain ⟨content, rfl⟩ := h
    exact ⟨c :: content, by simp [Quotation.push]⟩

/-- A quotation ends with **the mark that leads the scan to the top**. -/
theorem endsAt_quotation (hmark : '\\' ≠ mark) (text : List Char) :
    (quotation mark text).EndsAt mark (Scan.splitAtTop ⟨none, some mark, false⟩ text) := by
  -- the mark ends the quotation for the scan as well
  have hclose : ∀ rest, Scan.splitAtTop ⟨none, some mark, false⟩ (mark :: rest) =
      some ([], rest) := by
    intro rest
    refine Scan.splitAtTop_cons_top ?_
    rw [Scan.step_quoted mark none hmark.symm, if_pos rfl]
    rfl
  have hgo : ∀ {c}, c ≠ mark → c ≠ '\\' → ∀ rest,
      Scan.splitAtTop ⟨none, some mark, false⟩ (c :: rest) =
        (Scan.splitAtTop ⟨none, some mark, false⟩ rest).map fun cut => (c :: cut.1, cut.2) := by
    intro c hc hslash rest
    exact Scan.splitAtTop_cons (by rw [Scan.step_quoted mark none hslash, if_neg hc]) rfl
  fun_induction quotation mark text with
  | case1 => rfl
  | case2 =>
    rw [hclose]
    exact ⟨[], rfl⟩
  | case3 c hc =>
    by_cases hslash : c = '\\'
    · subst hslash
      rfl
    · rw [hgo hc hslash]
      rfl
  | case4 d rest =>
    rw [hclose]
    exact ⟨[], rfl⟩
  | case5 d rest _ ih =>
    rw [Scan.splitAtTop_escape rfl rfl, Option.map_map]
    exact ih.push ['\\', d] (unescaped d)
  | case6 c d rest hc hslash ih =>
    rw [hgo hc hslash]
    exact ih.push [c] c

/-- A quotation mark begins a quotation. -/
theorem exists_ofHead_eq_ofQuotation (hmark : isQuote mark = true) (rest : List Char) :
    ∃ read, ofHead mark rest = ofQuotation mark read rest := by
  simp only [isQuote, Bool.or_eq_true, decide_eq_true_eq] at hmark
  rcases hmark with rfl | rfl
  · exact ⟨.text, rfl⟩
  · exact ⟨.field, rfl⟩

end Lexeme

namespace Cursor

/-- What is read of a quotation **ends as it was scanned**: with a token behind the byte that the
scan has found, or as a quotation that is never closed if the scan has found none. -/
structure EndsAsScanned (taken : Taken) (closing : Option Nat) : Prop where
  /-- A token ends just behind the closing byte. -/
  closed : ∀ stop, (∃ token, taken = (.ok token, stop + 1)) ↔ closing = some stop
  /-- The quotation is reported to be unclosed just when there is no closing byte. -/
  unclosed : (∃ stop, taken = (.error .unterminatedString, stop)) ↔ closing = none

variable {mark : Char} (hmark : isQuote mark = true)
include hmark

theorem endsAsScanned_ofQuotation (read : String → Token) (start : Nat) (rest : List Char) :
    EndsAsScanned (taken start (Lexeme.ofQuotation mark read rest))
      (Scan.cutAt (start + 1) (Scan.splitAtTop ⟨none, some mark, false⟩ rest)) := by
  have hslash : '\\' ≠ mark := by
    rintro rfl
    cases hmark
  have hends := Lexeme.endsAt_quotation hslash rest
  cases hcut : Scan.splitAtTop ⟨none, some mark, false⟩ rest with
  | none =>
    rw [hcut] at hends
    simp only [Lexeme.Quotation.EndsAt] at hends
    constructor
    · simp [taken, Lexeme.ofQuotation, hends, Scan.cutAt]
    · simp [taken, Lexeme.ofQuotation, hends, Scan.cutAt]
  | some cut =>
    rw [hcut] at hends
    obtain ⟨content, hquotation⟩ := hends
    have hstop : start + byteLength (mark :: (cut.1 ++ [mark])) =
        start + 1 + byteLength cut.1 + 1 := by
      have hsize := Scan.utf8Size_of_isQuote hmark
      simp only [Text.byteLength_cons, Text.byteLength_append, Text.byteLength_nil, hsize]
      omega
    constructor
    · intro stop
      simp only [taken, Lexeme.ofQuotation, hquotation, hstop, Scan.cutAt, Option.map_some,
        Prod.mk.injEq, Except.ok.injEq, Nat.add_right_cancel_iff, exists_and_right, exists_eq',
        true_and, Option.some.injEq]
    · simp [taken, Lexeme.ofQuotation, hquotation, Scan.cutAt]

/-- The lexer, started behind a quotation mark anywhere in a text, **stops behind the byte that
closes the quotation for the scan**, and reports an unclosed quotation just when the scan finds no
such byte. So does the reading of lexemes. -/
theorem endsAsScanned_quoted (read : String → Token) (before rest : List Char) :
    let text := before ++ mark :: rest
    let start := byteLength before
    ∃ found, quoted mark read text (start + 1) = .ok found ∧
      EndsAsScanned found (Scan.closingQuote? text start) ∧
      EndsAsScanned (taken start (Lexeme.ofHead mark rest)) (Scan.closingQuote? text start) := by
  intro text start
  have htail : TailAt text start (mark :: rest) := ⟨before, rfl, rfl⟩
  have hclosing : Scan.closingQuote? text start =
      Scan.cutAt (start + 1) (Scan.splitAtTop ⟨none, some mark, false⟩ rest) :=
    Except.ok.inj ((Scan.quoteEnd_eq text start).symm.trans (Scan.quoteEnd_of_tailAt hmark htail))
  have hread := quoted_eq read htail
  rw [Scan.utf8Size_of_isQuote hmark] at hread
  rw [hclosing]
  obtain ⟨read', hhead⟩ := Lexeme.exists_ofHead_eq_ofQuotation hmark rest
  refine ⟨_, hread, endsAsScanned_ofQuotation hmark read start rest, ?_⟩
  rw [hhead]
  exact endsAsScanned_ofQuotation hmark read' start rest

omit hmark in
/-- In `é"\é"` the backslash hides a character of two bytes. -/
theorem endsAsScanned_hidden_character :
    isQuote '"' = true ∧ Scan.closingQuote? "é\"\\é\"".toList 2 = some 6 ∧
      ∃ token, quoted '"' .text "é\"\\é\"".toList 3 = .ok (.ok token, 7) := by
  have hclosing : Scan.closingQuote? "é\"\\é\"".toList 2 = some 6 := by decide
  have hmark : isQuote '"' = true := rfl
  obtain ⟨_, hread, hends, -⟩ := endsAsScanned_quoted hmark .text ['é'] ['\\', 'é', '"']
  obtain ⟨token, rfl⟩ := (hends.closed 6).2 hclosing
  exact ⟨hmark, hclosing, token, hread⟩

end Cursor

end GridFormula
