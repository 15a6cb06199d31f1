import GridFormula.Expr.Compile
import GridFormula.Proofs.Reading
import GridFormula.Proofs.TemplateSlices

/-!
# Reading and replacing templates

How a text is read as plain text and templates is written down without a search: a template runs
from a mark that no other mark stands in front of to the first closing brace behind it, and what is
behind that is read in the same way. Every text has one reading. Its templates are replaced when
each of them is closed and bound, by the displays of the values as they are; otherwise the first of
them that is not decides the error, which points to it in the text as it was given.

## Main definitions

* `Template.Reading`: how a text is read.
* `Template.Part.Stands`, `Template.Part.Offends`: what takes the place of a part, or why nothing
  does.

## Main results

* `Template.Reading.eq_partsAt`, `Template.reading_partsAt`: the parts of a text are its reading.
* `Template.Reading.expand_eq_ok_iff`, `Template.Reading.expand_eq_error_iff`: what a text is
  expanded to, and the error of a text that is not.
-/

namespace GridFormula.Template

open Text (byteLength trim)

/-! ### Readings -/

/-- The **mark** that begins a template. -/
def mark : List Char := ['$', openBrace]

/-- How a text that begins at byte `offset` is **read**. -/
inductive Reading : Nat → List Char → List Part → Prop where
  /-- Without a mark it is plain. -/
  | plain {offset : Nat} {text : List Char} :
      ¬ mark <:+: text → Reading offset text [.plain text]
  /-- A template that is not closed takes the rest of the text. -/
  | unclosed {offset : Nat} {before inside : List Char} :
      ¬ mark <:+: before → closeBrace ∉ inside →
        Reading offset (before ++ (mark ++ inside))
          [.plain before, .unclosed inside
            ⟨offset + byteLength before, offset + byteLength (before ++ (mark ++ inside))⟩]
  /-- The first mark begins a template, which the first closing brace behind it closes. -/
  | template {offset : Nat} {before inside rest : List Char} {parts : List Part} :
      ¬ mark <:+: before → closeBrace ∉ inside →
        Reading (offset + byteLength (before ++ (mark ++ inside ++ [closeBrace]))) rest parts →
          Reading offset (before ++ (mark ++ inside ++ [closeBrace] ++ rest))
            (.plain before :: .template inside ⟨offset + byteLength before,
              offset + byteLength (before ++ (mark ++ inside ++ [closeBrace]))⟩ :: parts)

theorem mark_infix_cons_cons {c d : Char} {rest : List Char} :
    mark <:+: c :: d :: rest ↔ (c = '$' ∧ d = openBrace) ∨ mark <:+: d :: rest := by
  rw [List.infix_cons_iff, mark, List.cons_prefix_cons, List.cons_prefix_cons]
  simp [eq_comm]

theorem not_mark_infix_singleton (c : Char) : ¬ mark <:+: [c] := fun h => by
  have hlength := h.length_le
  simp [mark] at hlength

/-- The search for a template **comes to the first mark**. -/
theorem splitAtTemplate_append {before : List Char} (h : ¬ mark <:+: before)
    (behind : List Char) :
    splitAtTemplate (before ++ (mark ++ behind)) = some (before, behind) := by
  induction before with
  | nil => simp [mark, splitAtTemplate]
  | cons c rest ih =>
    have hrest := ih fun hmark => h (hmark.trans (List.suffix_cons c rest).isInfix)
    cases rest with
    | nil =>
      have hne : ¬ (c = '$' && '$' = openBrace) = true := by simp [openBrace]
      exact (if_neg hne).trans (congrArg (Option.map _) hrest)
    | cons d rest =>
      rw [mark_infix_cons_cons, not_or] at h
      exact (if_neg (by simpa using h.1)).trans (congrArg (Option.map _) hrest)

/-- The search for a template finds nothing when there is no mark, and no mark is **in front** of
what it finds. -/
theorem not_mark_of_splitAtTemplate (text : List Char) :
    (splitAtTemplate text = none → ¬ mark <:+: text) ∧
      ∀ before behind, splitAtTemplate text = some (before, behind) → ¬ mark <:+: before := by
  fun_induction splitAtTemplate text with
  | case1 => simp [mark]
  | case2 c => simp [not_mark_infix_singleton]
  | case3 c d rest hcd => simp [mark]
  | case4 c d rest hcd ih =>
    obtain ⟨hnone, hsome⟩ := ih
    have hne : ¬ (c = '$' ∧ d = openBrace) := by simpa using hcd
    constructor
    · intro hsplit
      rw [Option.map_eq_none_iff] at hsplit
      exact mark_infix_cons_cons.not.2 (not_or.2 ⟨hne, hnone hsplit⟩)
    · intro before behind hsplit
      obtain ⟨⟨before, behind⟩, hsplit, heq⟩ := Option.map_eq_some_iff.1 hsplit
      cases heq
      have hbefore := hsome before behind hsplit
      cases before with
      | nil => exact not_mark_infix_singleton c
      | cons e before =>
        -- the text in front begins as the text does
        obtain ⟨rfl, -⟩ := List.cons.inj (eq_of_splitAtTemplate hsplit)
        exact mark_infix_cons_cons.not.2 (not_or.2 ⟨hne, hbefore⟩)

/-! ### The parts are the reading -/

section Parts

variable {before inside : List Char}

theorem byteLength_mark : byteLength mark = 2 := rfl

theorem partsAt_of_not_mark {text : List Char} (h : ¬ mark <:+: text) (offset : Nat) :
    partsAt offset text = [.plain text] := by
  rw [partsAt]
  split
  · rfl
  · next before behind hsplit =>
    rw [eq_of_splitAtTemplate hsplit] at h
    exact absurd ⟨before, behind, by simp [mark]⟩ h

theorem partsAt_unclosed (hbefore : ¬ mark <:+: before) (hinside : closeBrace ∉ inside)
    (offset : Nat) :
    partsAt offset (before ++ (mark ++ inside)) = [.plain before, .unclosed inside
      ⟨offset + byteLength before, offset + byteLength (before ++ (mark ++ inside))⟩] := by
  obtain ⟨htake, hdrop⟩ := span_closeBrace hinside []
  rw [List.append_nil] at htake hdrop
  rw [partsAt]
  split
  · next hsplit =>
    rw [splitAtTemplate_append hbefore] at hsplit
    cases hsplit
  · next hsplit =>
    rw [splitAtTemplate_append hbefore] at hsplit
    cases hsplit
    dsimp only
    split
    · rw [htake]
      simp [byteLength_mark, Nat.add_assoc]
    · next hclose =>
      rw [hdrop] at hclose
      cases hclose

theorem partsAt_template (hbefore : ¬ mark <:+: before) (hinside : closeBrace ∉ inside)
    (rest : List Char) (offset : Nat) :
    partsAt offset (before ++ (mark ++ inside ++ [closeBrace] ++ rest)) =
      .plain before :: .template inside ⟨offset + byteLength before,
        offset + byteLength (before ++ (mark ++ inside ++ [closeBrace]))⟩ ::
          partsAt (offset + byteLength (before ++ (mark ++ inside ++ [closeBrace]))) rest := by
  obtain ⟨htake, hdrop⟩ := span_closeBrace hinside (closeBrace :: rest)
  rw [List.takeWhile_cons_of_neg (by simp), List.append_nil] at htake
  rw [List.dropWhile_cons_of_neg (by simp)] at hdrop
  have hsize : closeBrace.utf8Size = 1 := rfl
  have htext : before ++ (mark ++ inside ++ [closeBrace] ++ rest) =
      before ++ (mark ++ (inside ++ closeBrace :: rest)) := by simp
  rw [htext, partsAt]
  split
  · next hsplit =>
    rw [splitAtTemplate_append hbefore] at hsplit
    cases hsplit
  · next hsplit =>
    rw [splitAtTemplate_append hbefore] at hsplit
    cases hsplit
    dsimp only
    split
    · next hclose =>
      rw [hdrop] at hclose
      cases hclose
    · next hclose =>
      rw [hdrop] at hclose
      cases hclose
      rw [htake]
      simp [byteLength_mark, hsize, Nat.add_assoc]

end Parts

/-- A reading gives the **parts** of the text. -/
theorem Reading.eq_partsAt {offset : Nat} {text : List Char} {parts : List Part}
    (h : Reading offset text parts) : parts = partsAt offset text := by
  induction h with
  | plain hmark => rw [partsAt_of_not_mark hmark]
  | unclosed hbefore hinside => rw [partsAt_unclosed hbefore hinside]
  | template hbefore hinside _ ih => rw [partsAt_template hbefore hinside, ← ih]

/-- The parts of a text are a **reading** of it. -/
theorem reading_partsAt (offset : Nat) (text : List Char) :
    Reading offset text (partsAt offset text) := by
  induction hlength : text.length using Nat.strongRecOn generalizing offset text with
  | ind length ih =>
    cases hsplit : splitAtTemplate text with
    | none =>
      have hmark := (not_mark_of_splitAtTemplate text).1 hsplit
      rw [partsAt_of_not_mark hmark]
      exact .plain hmark
    | some cut =>
      obtain ⟨before, behind⟩ := cut
      have hbefore := (not_mark_of_splitAtTemplate text).2 before behind hsplit
      have htext : text = before ++ (mark ++ behind) := eq_of_splitAtTemplate hsplit
      by_cases hclose : closeBrace ∈ behind
      · obtain ⟨inside, rest, rfl, hinside⟩ := List.eq_append_cons_of_mem hclose
        have hparts : mark ++ (inside ++ closeBrace :: rest) =
            mark ++ inside ++ [closeBrace] ++ rest := by simp
        rw [hparts] at htext
        have hshorter : rest.length < length := by
          rw [← hlength, htext]
          simp
          omega
        rw [htext, partsAt_template hbefore hinside]
        exact .template hbefore hinside (ih rest.length hshorter _ rest rfl)
      · rw [htext, partsAt_unclosed hbefore hclose]
        exact .unclosed hbefore hclose

/-! ### What takes the place of a part -/

/-- What **takes the place** of a part: a template that is closed and bound is replaced by the
display of its value. -/
inductive Part.Stands (context : Context) : Part → List Char → Prop where
  /-- Plain text stays as it is. -/
  | plain (text : List Char) : Stands context (.plain text) text
  /-- The name of a template is what is inside it without the blanks at its ends. -/
  | template {inside : List Char} {span : Span} {value : Value} :
      context.get? (String.ofList (trim inside)) = some value →
        Stands context (.template inside span) value.display

/-- Why **nothing takes the place** of a part. -/
inductive Part.Offends (context : Context) : Part → SyntaxFault → Prop where
  /-- Nothing is bound to its name. -/
  | unknown {inside : List Char} {span : Span} :
      context.get? (String.ofList (trim inside)) = none →
        Offends context (.template inside span) (.unknownTemplate (String.ofList (trim inside)))
  /-- It is not closed. -/
  | unclosed (inside : List Char) (span : Span) :
      Offends context (.unclosed inside span) .unterminatedTemplate

theorem Part.Stands.not_offends {context : Context} {part : Part} {text : List Char}
    (h : part.Stands context text) {fault : SyntaxFault} : ¬ part.Offends context fault := by
  cases h with
  | plain => exact nofun
  | template hvalue =>
    rintro ⟨hnone⟩
    cases hvalue.symm.trans hnone

/-- Whether a part has the span, if it has one. -/
def Part.Spans : Part → Span → Prop
  | .plain _, _ => True
  | .template _ span, span' | .unclosed _ span, span' => span = span'

/-- Whether the spans of parts are where they stand, when the first stands at a byte position. -/
def Placed : Nat → List Part → Prop
  | _, [] => True
  | position, part :: others =>
    part.Spans ⟨position, position + byteLength part.source⟩ ∧
      Placed (position + byteLength part.source) others

/-- The spans in a reading are **where the parts stand** in the text. -/
theorem Reading.placed {offset : Nat} {text : List Char} {parts : List Part}
    (h : Reading offset text parts) : Placed offset parts := by
  induction h with
  | plain => simp [Placed, Part.Spans]
  | unclosed => simp [Placed, Part.Spans, Part.source, mark, Nat.add_assoc]
  | @template offset before inside rest parts _ _ _ ih =>
    have hsource : offset + byteLength (before ++ (mark ++ inside ++ [closeBrace])) =
        offset + byteLength before + byteLength (Part.template inside ⟨offset + byteLength before,
          offset + byteLength (before ++ (mark ++ inside ++ [closeBrace]))⟩).source := by
      rw [Text.byteLength_append, ← Nat.add_assoc]
      rfl
    rw [hsource] at ih
    exact ⟨trivial, congrArg (Span.mk _) hsource, ih⟩

theorem Placed.append {position : Nat} {front back : List Part}
    (h : Placed position (front ++ back)) :
    Placed (position + byteLength (front.flatMap Part.source)) back := by
  induction front generalizing position with
  | nil => exact h
  | cons part others ih =>
    rw [List.flatMap_cons, Text.byteLength_append, ← Nat.add_assoc]
    exact ih h.2

theorem Part.expand_eq_ok_iff {context : Context} {part : Part} {text : List Char} :
    part.expand context = .ok text ↔ part.Stands context text := by
  cases part with
  | plain =>
    constructor
    · intro h
      cases h
      exact .plain _
    · intro h
      cases h
      rfl
  | template inside span =>
    rw [expand]
    constructor
    · intro h
      split at h
      · next value hvalue =>
        cases h
        exact .template hvalue
      · cases h
    · rintro ⟨⟩
      next value hvalue => rw [hvalue]
  | unclosed =>
    constructor
    · intro h
      cases h
    · intro h
      cases h

theorem Part.expand_eq_error_iff {context : Context} {part : Part} {span : Span}
    (hspan : part.Spans span) {error : Error} :
    part.expand context = .error error ↔
      ∃ fault, part.Offends context fault ∧ error = Error.ofFault fault span := by
  cases part with
  | plain => exact ⟨nofun, fun ⟨_, hoffends, _⟩ => nomatch hoffends⟩
  | template inside span =>
    cases hspan
    rw [expand]
    constructor
    · intro h
      split at h
      · cases h
      · next hnone =>
        cases h
        exact ⟨_, .unknown hnone, rfl⟩
    · rintro ⟨_, ⟨⟩, rfl⟩
      next hnone => rw [hnone]
  | unclosed inside span =>
    cases hspan
    constructor
    · rintro ⟨⟩
      exact ⟨_, .unclosed inside span, rfl⟩
    · rintro ⟨_, ⟨⟩, rfl⟩
      rfl

/-! ### Replacing -/

/-- A row of steps succeeds when **each** of them does. -/
theorem mapM_eq_ok_iff {α β : Type} {f : α → Except Error β} {items : List α} {values : List β} :
    items.mapM f = .ok values ↔
      List.Forall₂ (fun item value => f item = .ok value) items values := by
  induction items generalizing values with
  | nil =>
    rw [List.mapM_nil, List.forall₂_nil_left_iff]
    exact ⟨fun h => by cases h; rfl, fun h => by rw [h]; rfl⟩
  | cons item others ih =>
    rw [List.mapM_cons, List.forall₂_cons_left_iff]
    constructor
    · intro h
      obtain ⟨value, hvalue, h⟩ := Expr.exists_of_bind h
      obtain ⟨others', hothers, h⟩ := Expr.exists_of_bind h
      cases h
      exact ⟨value, others', hvalue, ih.1 hothers, rfl⟩
    · rintro ⟨value, others', hvalue, hothers, rfl⟩
      rw [hvalue, ih.2 hothers]
      rfl

section Expand

variable {context : Context} {text : List Char} {parts : List Part} (h : Reading 0 text parts)
include h

theorem Reading.expand_eq : expand context text =
    (parts.mapM (Part.expand context)).map List.flatten := by
  rw [h.eq_partsAt]
  rfl

/-- What a text is **expanded to**. -/
theorem Reading.expand_eq_ok_iff {out : List Char} :
    expand context text = .ok out ↔
      ∃ texts, List.Forall₂ (Part.Stands context) parts texts ∧ out = texts.flatten := by
  have hparts {texts : List (List Char)} : parts.mapM (Part.expand context) = .ok texts ↔
      List.Forall₂ (Part.Stands context) parts texts := by
    simp only [mapM_eq_ok_iff, Part.expand_eq_ok_iff]
  rw [h.expand_eq]
  constructor
  · intro hout
    cases hexpands : parts.mapM (Part.expand context) with
    | error => rw [hexpands] at hout; cases hout
    | ok texts =>
      rw [hexpands] at hout
      cases hout
      exact ⟨texts, hparts.1 hexpands, rfl⟩
  · rintro ⟨texts, htexts, rfl⟩
    rw [hparts.2 htexts]
    rfl

/-- The error of a text is that of the **first part** that nothing takes the place of. -/
theorem Reading.expand_eq_error_iff {error : Error} :
    expand context text = .error error ↔
      ∃ front part back fault, parts = front ++ part :: back ∧
        (∀ other ∈ front, ∃ text, other.Stands context text) ∧ part.Offends context fault ∧
          error = Error.ofFault fault ⟨byteLength (front.flatMap Part.source),
            byteLength ((front ++ [part]).flatMap Part.source)⟩ := by
  have hspan {front back : List Part} {part : Part} (hparts : parts = front ++ part :: back) :
      part.Spans ⟨byteLength (front.flatMap Part.source),
        byteLength ((front ++ [part]).flatMap Part.source)⟩ := by
    have hplaced := h.placed
    rw [hparts] at hplaced
    simpa using hplaced.append.1
  rw [h.expand_eq, map_eq_error_iff, mapM_eq_error_iff]
  constructor
  · rintro ⟨front, part, back, hparts, hfront, hpart⟩
    obtain ⟨fault, hoffends, herror⟩ := (Part.expand_eq_error_iff (hspan hparts)).1 hpart
    exact ⟨front, part, back, fault, hparts,
      fun other hother => (hfront other hother).imp fun _ => Part.expand_eq_ok_iff.1, hoffends,
      herror⟩
  · rintro ⟨front, part, back, fault, hparts, hfront, hoffends, herror⟩
    exact ⟨front, part, back, hparts,
      fun other hother => (hfront other hother).imp fun _ => Part.expand_eq_ok_iff.2,
      (Part.expand_eq_error_iff (hspan hparts)).2 ⟨fault, hoffends, herror⟩⟩

/-- A text can be expanded when something takes the place of **every part**. -/
theorem Reading.exists_expand_iff :
    (∃ out, expand context text = .ok out) ↔
      ∀ part ∈ parts, ∃ text, part.Stands context text := by
  constructor
  · rintro ⟨out, hout⟩ part hpart
    obtain ⟨texts, htexts, -⟩ := h.expand_eq_ok_iff.1 hout
    obtain ⟨i, hi, rfl⟩ := List.getElem_of_mem hpart
    exact ⟨_, htexts.get hi (htexts.length_eq ▸ hi)⟩
  · intro hstands
    cases hexpand : expand context text with
    | ok out => exact ⟨out, rfl⟩
    | error error =>
      obtain ⟨front, part, back, fault, rfl, -, hoffends, -⟩ := h.expand_eq_error_iff.1 hexpand
      obtain ⟨text, hpart⟩ := hstands part (by simp)
      exact absurd hoffends hpart.not_offends

end Expand

end GridFormula.Template
