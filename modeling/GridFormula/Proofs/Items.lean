import GridFormula.Proofs.ByteScan

/-!
# The items of argument text

What the scan goes over in one step is an *item*: an escaped character, a quotation, a bracketed
group, or one other character. The grammar of items is written down without the scan. It speaks of
texts alone, has no state, and does not count brackets: a group is closed by its matching bracket
because the groups of its kind that are inside it are groups themselves.

A separator stands at the top where nothing but items stands before it, of which none begins with
the separator itself. So the scan reports it if and only if the text can be taken apart in that way.
Both directions rest on one alternative: a text begins with an item, or with something that is never
closed, and then the scan is never at the top again.

## Main definitions

* `Scan.QuotedBody`, `Scan.GroupBody`: what stands inside a quotation or a group.
* `Scan.IsItem`: the items.
* `Scan.Skipped`: items that a search for a separator goes over.

## Main results

* `Scan.item_or_unclosed`: a text begins with an item or with something that is never closed.
* `Scan.complete_iff_exists_items`: the texts that are made of items.
* `Scan.hasSeparator_iff_exists_items`: the separators that the scan reports.
-/

namespace GridFormula.Scan

open Text (byteLength utf8Bytes)

/-! ### The grammar -/

/-- What stands **inside a quotation**: no `mark` is in it but an escaped one. -/
inductive QuotedBody (mark : Char) : List Char → Prop where
  | nil : QuotedBody mark []
  /-- A backslash takes the character behind it along, a mark too. -/
  | escape (c : Char) {body : List Char} :
      QuotedBody mark body → QuotedBody mark ('\\' :: c :: body)
  | char {c : Char} {body : List Char} :
      c ≠ '\\' → c ≠ mark → QuotedBody mark body → QuotedBody mark (c :: body)

/-- What stands **inside a group**: the brackets of its kind are in it as groups. Escaped characters
and quotations are passed over whole, and brackets of another kind are characters like others. -/
inductive GroupBody (bracket : Bracket) : List Char → Prop where
  | nil : GroupBody bracket []
  /-- A backslash takes the character behind it along. -/
  | escape (c : Char) {body : List Char} :
      GroupBody bracket body → GroupBody bracket ('\\' :: c :: body)
  /-- A quotation can hold brackets that close nothing. -/
  | quotation {mark : Char} {quoted body : List Char} :
      isQuote mark = true → QuotedBody mark quoted → GroupBody bracket body →
        GroupBody bracket (mark :: (quoted ++ mark :: body))
  /-- A group inside has a closing bracket of its own. -/
  | group {inner body : List Char} :
      GroupBody bracket inner → GroupBody bracket body →
        GroupBody bracket (bracket.opener :: (inner ++ bracket.closer :: body))
  | char {c : Char} {body : List Char} :
      c ≠ '\\' → isQuote c = false → c ≠ bracket.opener → c ≠ bracket.closer →
        GroupBody bracket body → GroupBody bracket (c :: body)

/-- An **item**: what is whole by itself. -/
inductive IsItem : List Char → Prop where
  | escape (c : Char) : IsItem ['\\', c]
  | quotation {mark : Char} {body : List Char} :
      isQuote mark = true → QuotedBody mark body → IsItem (mark :: (body ++ [mark]))
  | group {bracket : Bracket} {body : List Char} :
      GroupBody bracket body → IsItem (bracket.opener :: (body ++ [bracket.closer]))
  | char {c : Char} :
      c ≠ '\\' → isQuote c = false → (∀ bracket : Bracket, c ≠ bracket.opener) →
        IsItem [c]

/-- Items of which none **begins with the separator**. -/
def Skipped (sep : Char) (items : List (List Char)) : Prop :=
  ∀ item ∈ items, IsItem item ∧ item.head? ≠ some sep

/-! ### Staying below the top -/

theorem ofOpener?_eq_some_iff {c : Char} {bracket : Bracket} :
    Bracket.ofOpener? c = some bracket ↔ c = bracket.opener := by
  constructor
  · intro h
    simp only [Bracket.ofOpener?] at h
    split at h
    · next heq => cases h; exact heq
    · split at h
      · next heq => cases h; exact heq
      · split at h
        · next heq => cases h; exact heq
        · cases h
  · rintro rfl
    cases bracket <;> rfl

/-- The scan **leads** from one state to another without being at the top on the way. -/
structure Leads (s : State) (text : List Char) (s' : State) : Prop where
  /-- The scan ends in the second state. -/
  run_eq : s.run text = s'
  /-- Behind no character of the text it is at the top. -/
  splitAtTop_eq : splitAtTop s text = none

namespace Leads

variable {s s' s'' : State} {first second : List Char}

theorem nil (s : State) : Leads s [] s := ⟨rfl, rfl⟩

theorem append (hfirst : Leads s first s') (hsecond : Leads s' second s'') :
    Leads s (first ++ second) s'' where
  run_eq := by rw [State.run_append, hfirst.run_eq, hsecond.run_eq]
  splitAtTop_eq := by
    rw [splitAtTop_append_of_none hfirst.splitAtTop_eq, hfirst.run_eq, hsecond.splitAtTop_eq]
    rfl

theorem cons {c : Char} (hstep : s.step c = s') (htop : s'.isTop = false)
    (hrest : Leads s' first s'') : Leads s (c :: first) s'' where
  run_eq := by rw [State.run_cons, hstep, hrest.run_eq]
  splitAtTop_eq := by
    rw [splitAtTop_cons hstep htop, hrest.splitAtTop_eq]
    rfl

theorem append_none (hfirst : Leads s first s') (hsecond : splitAtTop s' second = none) :
    splitAtTop s (first ++ second) = none :=
  (hfirst.append ⟨rfl, hsecond⟩).splitAtTop_eq

/-- A backslash and the character behind it change nothing. -/
theorem escape {group : Option Group} {quote : Option Char}
    (htop : State.isTop ⟨group, quote, false⟩ = false) (c : Char)
    (hrest : Leads ⟨group, quote, false⟩ first s') :
    Leads ⟨group, quote, false⟩ ('\\' :: c :: first) s' := by
  have hslash : State.step ⟨group, quote, false⟩ '\\' = ⟨group, quote, true⟩ := rfl
  exact cons hslash (by simp [State.isTop]) (cons rfl htop hrest)

end Leads

theorem ne_backslash_of_isQuote {mark : Char} (h : isQuote mark = true) : mark ≠ '\\' := by
  rintro rfl
  cases h

theorem step_of_isQuote {mark : Char} (h : isQuote mark = true) (group : Option Group) :
    State.step ⟨group, none, false⟩ mark = ⟨group, some mark, false⟩ := by
  simp [State.step, ne_backslash_of_isQuote h, h]

theorem step_mark {mark : Char} (h : isQuote mark = true) (group : Option Group) :
    State.step ⟨group, some mark, false⟩ mark = ⟨group, none, false⟩ := by
  rw [step_quoted mark group (ne_backslash_of_isQuote h), if_pos rfl]

theorem step_opener (bracket : Bracket) (inner : Nat) :
    State.step ⟨some ⟨bracket, inner⟩, none, false⟩ bracket.opener =
      ⟨some ⟨bracket, inner + 1⟩, none, false⟩ := by
  cases bracket <;> rfl

theorem step_closer (bracket : Bracket) (inner : Nat) :
    State.step ⟨some ⟨bracket, inner + 1⟩, none, false⟩ bracket.closer =
      ⟨some ⟨bracket, inner⟩, none, false⟩ := by
  cases bracket <;> rfl

theorem step_inside_of_ne {bracket : Bracket} {c : Char} (hslash : c ≠ '\\')
    (hquote : isQuote c = false) (hopen : c ≠ bracket.opener) (hclose : c ≠ bracket.closer)
    (inner : Nat) :
    State.step ⟨some ⟨bracket, inner⟩, none, false⟩ c = ⟨some ⟨bracket, inner⟩, none, false⟩ := by
  simp [State.step, State.stepGroup, hslash, hquote, hopen, hclose]

/-- Inside a quotation the scan stays inside it. -/
theorem QuotedBody.leads {mark : Char} {body : List Char} (h : QuotedBody mark body)
    (group : Option Group) :
    Leads ⟨group, some mark, false⟩ body ⟨group, some mark, false⟩ := by
  have htop : State.isTop ⟨group, some mark, false⟩ = false := by simp [State.isTop]
  induction h with
  | nil => exact .nil _
  | escape c _ ih => exact .escape htop c ih
  | char hslash hmark _ ih =>
    exact .cons (by rw [step_quoted mark group hslash, if_neg hmark]) htop ih

/-- A quotation is cut at the mark behind its body. -/
theorem QuotedBody.splitAtTop_append {mark : Char} {body : List Char} (h : QuotedBody mark body)
    (hmark : isQuote mark = true) (behind : List Char) :
    splitAtTop ⟨none, some mark, false⟩ (body ++ mark :: behind) = some (body, behind) := by
  have hbody := h.leads none
  rw [splitAtTop_append_of_none hbody.splitAtTop_eq, hbody.run_eq,
    splitAtTop_cons_top (step_mark hmark none)]
  simp

/-- Inside a group the scan stays at the same depth, whatever that is. -/
theorem GroupBody.leads {bracket : Bracket} {body : List Char} (h : GroupBody bracket body)
    (inner : Nat) :
    Leads ⟨some ⟨bracket, inner⟩, none, false⟩ body ⟨some ⟨bracket, inner⟩, none, false⟩ := by
  have htop {inner : Nat} : State.isTop ⟨some ⟨bracket, inner⟩, none, false⟩ = false := rfl
  induction h generalizing inner with
  | nil => exact .nil _
  | escape c _ ih => exact .escape htop c (ih inner)
  | quotation hmark hquoted _ ih =>
    exact .cons (step_of_isQuote hmark _) rfl
      ((hquoted.leads _).append (.cons (step_mark hmark _) htop (ih inner)))
  | group _ _ ihinner ih =>
    exact .cons (step_opener bracket inner) htop
      ((ihinner (inner + 1)).append (.cons (step_closer bracket inner) htop (ih inner)))
  | char hslash hquote hopen hclose _ ih =>
    exact .cons (step_inside_of_ne hslash hquote hopen hclose inner) htop (ih inner)

/-- A group is cut at the closing bracket behind its body. -/
theorem GroupBody.splitAtCloser_append {bracket : Bracket} {body : List Char}
    (h : GroupBody bracket body) (behind : List Char) :
    splitAtCloser bracket (body ++ bracket.closer :: behind) = some (body, behind) := by
  have hbody := h.leads 0
  have hclose : State.step ⟨some ⟨bracket, 0⟩, none, false⟩ bracket.closer = .top := by
    cases bracket <;> rfl
  rw [splitAtCloser, State.inside, splitAtTop_append_of_none hbody.splitAtTop_eq, hbody.run_eq,
    splitAtTop_cons_top hclose]
  simp

/-- What the scan goes over from the top to the top **separates nothing**, if it does not begin
with the separator. -/
structure Crossed (text : List Char) : Prop where
  /-- The scan is at the top again behind it. -/
  run_eq : State.top.run text = .top
  /-- Only its first character can be a separator. -/
  hasSeparator_eq : ∀ {sep}, text.head? ≠ some sep → hasSeparator sep text = false

theorem Leads.crossed {s s' : State} {c last : Char} {body : List Char}
    (hbody : Leads s body s') (hs : s.isTop = false) (hs' : s'.isTop = false)
    (hfirst : State.step .top c = s) (hlast : s'.step last = .top) :
    Crossed (c :: (body ++ [last])) where
  run_eq := by
    rw [State.run_cons, State.run_append, hfirst, hbody.run_eq, State.run_cons, hlast]
    rfl
  hasSeparator_eq {sep} hhead := by
    have hne : c ≠ sep := by simpa using hhead
    have hend : hasSeparatorFrom sep s' [last] = false := by simp [hasSeparatorFrom, hs']
    rw [hasSeparator, hasSeparatorFrom, hfirst, hasSeparatorFrom_append,
      hasSeparatorFrom_of_splitAtTop hs hbody.splitAtTop_eq, hbody.run_eq, hend]
    simp [hne]

theorem step_top_opener (bracket : Bracket) :
    State.step .top bracket.opener = ⟨some ⟨bracket, 0⟩, none, false⟩ := by
  cases bracket <;> rfl

/-- An item leads from the top to the top. -/
theorem IsItem.crossed {item : List Char} (h : IsItem item) : Crossed item := by
  cases h with
  | escape c =>
    exact (Leads.nil ⟨none, none, true⟩).crossed rfl rfl rfl rfl
  | quotation hmark hbody =>
    exact (hbody.leads none).crossed rfl rfl (step_of_isQuote hmark none) (step_mark hmark none)
  | @group bracket body hbody =>
    have hclose : State.step ⟨some ⟨bracket, 0⟩, none, false⟩ bracket.closer = .top := by
      cases bracket <;> rfl
    exact (hbody.leads 0).crossed rfl rfl (step_top_opener bracket) hclose
  | @char c hslash hquote hopen =>
    have hnone : Bracket.ofOpener? c = none :=
      Option.eq_none_iff_forall_ne_some.2 fun bracket heq =>
        hopen bracket (ofOpener?_eq_some_iff.1 heq)
    have hstep : State.step .top c = .top := by
      simp [State.step, State.top, State.stepGroup, hslash, hquote, hnone]
    refine ⟨hstep, fun {sep} hhead => ?_⟩
    have hne : c ≠ sep := by simpa using hhead
    simp [hasSeparator, hasSeparatorFrom, hne]

/-! ### Closed or never closed -/

/-- A quotation is **closed or not**: the text behind its mark has a mark that ends it, or the scan
never leaves the quotation. -/
theorem quotedBody_or (mark : Char) (text : List Char) :
    (∃ body behind, text = body ++ mark :: behind ∧ QuotedBody mark body) ∨
      ∀ group, splitAtTop ⟨group, some mark, false⟩ text = none := by
  have htop (group : Option Group) : State.isTop ⟨group, some mark, false⟩ = false := by
    simp [State.isTop]
  induction text using inductEscapes with
  | nil => exact .inr fun _ => rfl
  | backslash => exact .inr fun group => by simp [splitAtTop, State.step, State.isTop]
  | escape d rest ih =>
    rcases ih with ⟨body, behind, rfl, hbody⟩ | hnever
    · exact .inl ⟨'\\' :: d :: body, behind, rfl, .escape d hbody⟩
    · exact .inr fun group => ((Leads.nil _).escape (htop group) d).append_none (hnever group)
  | char c rest hslash ih =>
    by_cases hmark : c = mark
    · exact .inl ⟨[], rest, by rw [hmark]; rfl, .nil⟩
    rcases ih with ⟨body, behind, rfl, hbody⟩ | hnever
    · exact .inl ⟨c :: body, behind, rfl, .char hslash hmark hbody⟩
    · have hchar : QuotedBody mark [c] := .char hslash hmark .nil
      exact .inr fun group => (hchar.leads group).append_none (hnever group)

/-- A group is **closed or not** by what stands behind its bracket. When it is not, it is not closed
from any depth either: what is never closed is what stands inside. -/
def ClosedOrNot (bracket : Bracket) (text : List Char) : Prop :=
  (∃ body behind, text = body ++ bracket.closer :: behind ∧ GroupBody bracket body) ∨
    ∀ inner, splitAtTop ⟨some ⟨bracket, inner⟩, none, false⟩ text = none

section ClosedOrNot

variable {bracket : Bracket} {rest behind : List Char}

/-- What can stand in front inside a group decides nothing. -/
theorem ClosedOrNot.append (part : List Char)
    (hpart : ∀ {body}, GroupBody bracket body → GroupBody bracket (part ++ body))
    (h : ClosedOrNot bracket behind) : ClosedOrNot bracket (part ++ behind) := by
  rcases h with ⟨body, behind, rfl, hbody⟩ | hnever
  · exact .inl ⟨part ++ body, behind, by rw [List.append_assoc], hpart hbody⟩
  · have hwhole : GroupBody bracket part := List.append_nil part ▸ hpart .nil
    exact .inr fun inner => (hwhole.leads inner).append_none (hnever inner)

theorem closedOrNot_quotation {mark : Char} (hmark : isQuote mark = true)
    (h : ∀ quoted behind, rest = quoted ++ mark :: behind → ClosedOrNot bracket behind) :
    ClosedOrNot bracket (mark :: rest) := by
  rcases quotedBody_or mark rest with ⟨quoted, behind, rfl, hquoted⟩ | hnever
  · have hparts : mark :: (quoted ++ mark :: behind) = mark :: (quoted ++ [mark]) ++ behind := by
      simp
    rw [hparts]
    refine (h quoted behind rfl).append _ fun {body} hbody => ?_
    simpa using GroupBody.quotation hmark hquoted hbody
  · exact .inr fun inner =>
      (Leads.cons (step_of_isQuote hmark _) rfl (.nil _)).append_none (hnever _)

theorem closedOrNot_opener (hrest : ClosedOrNot bracket rest)
    (h : ∀ inside behind, rest = inside ++ bracket.closer :: behind → ClosedOrNot bracket behind) :
    ClosedOrNot bracket (bracket.opener :: rest) := by
  rcases hrest with ⟨inside, behind, rfl, hinside⟩ | hnever
  · have hparts : bracket.opener :: (inside ++ bracket.closer :: behind) =
        bracket.opener :: (inside ++ [bracket.closer]) ++ behind := by simp
    rw [hparts]
    refine (h inside behind rfl).append _ fun {body} hbody => ?_
    simpa using GroupBody.group hinside hbody
  · exact .inr fun inner =>
      (Leads.cons (step_opener bracket inner) rfl (.nil _)).append_none (hnever _)

end ClosedOrNot

/-- Every text closes a group or never does, by induction on its length: what stands behind a group
inside is shorter than the text, and is asked again. -/
theorem closedOrNot (bracket : Bracket) (text : List Char) : ClosedOrNot bracket text := by
  induction hlength : text.length using Nat.strongRecOn generalizing text with
  | ind length ih =>
    cases text with
    | nil => exact .inr fun _ => rfl
    | cons c rest =>
      have hshorter : rest.length < length := by simp [← hlength]
      by_cases hslash : c = '\\'
      · subst hslash
        cases rest with
        | nil => exact .inr fun _ => rfl
        | cons d rest =>
          exact (ih rest.length (Nat.lt_of_succ_lt hshorter) rest rfl).append ['\\', d]
            (.escape d)
      by_cases hquote : isQuote c = true
      · refine closedOrNot_quotation hquote fun quoted behind heq => ?_
        subst heq
        simp only [List.length_append, List.length_cons] at hshorter
        exact ih behind.length (by omega) behind rfl
      rw [Bool.not_eq_true] at hquote
      by_cases hclose : c = bracket.closer
      · exact .inl ⟨[], rest, by rw [hclose]; rfl, .nil⟩
      by_cases hopen : c = bracket.opener
      · subst hopen
        refine closedOrNot_opener (ih rest.length hshorter rest rfl) fun inside behind heq => ?_
        subst heq
        simp only [List.length_append, List.length_cons] at hshorter
        exact ih behind.length (by omega) behind rfl
      · exact (ih rest.length hshorter rest rfl).append [c] (.char hslash hquote hopen hclose)

/-- A text **begins with an item**, or with a character behind which the scan is never at the top
again. -/
theorem item_or_unclosed (c : Char) (rest : List Char) :
    (∃ tail behind, IsItem (c :: tail) ∧ rest = tail ++ behind) ∨
      ((State.step .top c).isTop = false ∧ splitAtTop (State.step .top c) rest = none) := by
  by_cases hslash : c = '\\'
  · subst hslash
    cases rest with
    | nil => exact .inr ⟨rfl, rfl⟩
    | cons d rest => exact .inl ⟨[d], rest, .escape d, rfl⟩
  by_cases hquote : isQuote c = true
  · rcases quotedBody_or c rest with ⟨body, behind, rfl, hbody⟩ | hnever
    · exact .inl ⟨body ++ [c], behind, .quotation hquote hbody, by simp⟩
    · have hstep : State.step .top c = ⟨none, some c, false⟩ := step_of_isQuote hquote none
      exact .inr ⟨by rw [hstep]; rfl, by rw [hstep]; exact hnever none⟩
  rw [Bool.not_eq_true] at hquote
  by_cases hopen : ∃ bracket : Bracket, c = bracket.opener
  · obtain ⟨bracket, rfl⟩ := hopen
    have hstep := step_top_opener bracket
    rcases closedOrNot bracket rest with ⟨body, behind, rfl, hbody⟩ | hnever
    · exact .inl ⟨body ++ [bracket.closer], behind, .group hbody, by simp⟩
    · exact .inr ⟨by rw [hstep]; rfl, by rw [hstep]; exact hnever 0⟩
  · exact .inl ⟨[], rest, .char hslash hquote (not_exists.1 hopen), rfl⟩

/-! ### Complete texts -/

/-- Where the scan is never at the top, it is not at the top in the end. -/
theorem isTop_run_of_splitAtTop {s : State} (hs : s.isTop = false) {text : List Char}
    (h : splitAtTop s text = none) : (s.run text).isTop = false := by
  induction text generalizing s with
  | nil => exact hs
  | cons c rest ih =>
    obtain ⟨htop, h⟩ := splitAtTop_cons_eq_none_iff.1 h
    exact ih htop h

/-- A text is **complete** exactly when it is made of items: behind something that is never closed
the scan is not at the top again. -/
theorem complete_iff_exists_items {text : List Char} :
    Complete text ↔
      ∃ items : List (List Char), text = items.flatten ∧ ∀ item ∈ items, IsItem item := by
  constructor
  · intro h
    induction hlength : text.length using Nat.strongRecOn generalizing text with
    | ind length ih =>
      cases text with
      | nil => exact ⟨[], rfl, List.forall_mem_nil _⟩
      | cons c rest =>
        rcases item_or_unclosed c rest with ⟨tail, behind, hitem, rfl⟩ | ⟨hstep, hnever⟩
        · have hbehind : Complete behind := by
            rwa [Complete, ← List.cons_append, State.run_append, hitem.crossed.run_eq] at h
          simp only [List.length_cons, List.length_append] at hlength
          obtain ⟨items, rfl, hitems⟩ := ih behind.length (by omega) hbehind rfl
          exact ⟨(c :: tail) :: items, rfl, List.forall_mem_cons.2 ⟨hitem, hitems⟩⟩
        · have htop := isTop_run_of_splitAtTop hstep hnever
          rw [← State.run_cons, h] at htop
          cases htop
  · rintro ⟨items, rfl, hitems⟩
    induction items with
    | nil => rfl
    | cons item items ih =>
      obtain ⟨hitem, hitems⟩ := List.forall_mem_cons.1 hitems
      rw [Complete, List.flatten_cons, State.run_append, hitem.crossed.run_eq]
      exact ih hitems

/-! ### Separators -/

/-- The scan goes over skipped items. -/
theorem Skipped.crossed {sep : Char} {items : List (List Char)} (h : Skipped sep items) :
    State.top.run items.flatten = .top ∧ hasSeparator sep items.flatten = false := by
  induction items with
  | nil => exact ⟨rfl, rfl⟩
  | cons item items ih =>
    obtain ⟨⟨hitem, hhead⟩, hitems⟩ := List.forall_mem_cons.1 h
    obtain ⟨hrun, hnone⟩ := ih hitems
    have hfirst := hitem.crossed.hasSeparator_eq hhead
    rw [hasSeparator] at hfirst hnone
    rw [List.flatten_cons, State.run_append, hitem.crossed.run_eq, hasSeparator,
      hasSeparatorFrom_append, hitem.crossed.run_eq, hfirst, hnone]
    exact ⟨hrun, rfl⟩

theorem Skipped.hasSeparator_append {sep : Char} {items : List (List Char)}
    (h : Skipped sep items) (behind : List Char) :
    hasSeparator sep (items.flatten ++ behind) = hasSeparator sep behind := by
  obtain ⟨hrun, hnone⟩ := h.crossed
  rw [hasSeparator] at hnone
  rw [hasSeparator, hasSeparatorFrom_append, hrun, hnone]
  rfl

theorem hasSeparator_of_unclosed {sep c : Char} {rest : List Char} (hne : c ≠ sep)
    (h : (State.step .top c).isTop = false ∧ splitAtTop (State.step .top c) rest = none) :
    hasSeparator sep (c :: rest) = false := by
  rw [hasSeparator, hasSeparatorFrom, hasSeparatorFrom_of_splitAtTop h.1 h.2]
  simp [hne]

/-- In front of a separator that the scan reports there are items. -/
theorem exists_items_of_hasSeparator {sep : Char} {text : List Char}
    (h : hasSeparator sep text = true) :
    ∃ items behind, text = items.flatten ++ sep :: behind ∧ Skipped sep items := by
  induction hlength : text.length using Nat.strongRecOn generalizing text with
  | ind length ih =>
    cases text with
    | nil => cases h
    | cons c rest =>
      by_cases hsep : c = sep
      · exact ⟨[], rest, by rw [hsep]; rfl, List.forall_mem_nil _⟩
      rcases item_or_unclosed c rest with ⟨tail, behind, hitem, rfl⟩ | hunclosed
      · have hhead : (c :: tail).head? ≠ some sep := by simpa using hsep
        have hfirst : Skipped sep [c :: tail] := List.forall_mem_singleton.2 ⟨hitem, hhead⟩
        have hbehind : hasSeparator sep behind = true := by
          rw [← hfirst.hasSeparator_append behind, List.flatten_singleton]
          exact h
        simp only [List.length_cons, List.length_append] at hlength
        obtain ⟨items, behind, rfl, hitems⟩ := ih behind.length (by omega) hbehind rfl
        have hall := List.forall_mem_cons.2 ⟨⟨hitem, hhead⟩, hitems⟩
        exact ⟨(c :: tail) :: items, behind, by simp, hall⟩
      · rw [hasSeparator_of_unclosed hsep hunclosed] at h
        cases h

theorem isSome_separatorAt (sep : Char) (position : Nat) (s : State) (rest : List Char) :
    (separatorAt sep position s rest).isSome = hasSeparatorFrom sep s rest := by
  rw [separatorAt]
  split
  · next h => rw [h]; rfl
  · next h => rw [Bool.not_eq_true] at h; rw [h]; rfl

theorem Skipped.separatorAt_append {sep : Char} {items : List (List Char)}
    (h : Skipped sep items) (behind : List Char) :
    separatorAt sep 0 .top (items.flatten ++ sep :: behind) = some (byteLength items.flatten) := by
  obtain ⟨hrun, hnone⟩ := h.crossed
  rw [Scan.separatorAt_append hnone, hrun]
  simp [separatorAt, hasSeparatorFrom, piecesFrom]

/-- The position of the separator is where the items in front of it end. -/
theorem separatorAt_eq_some_iff {sep : Char} {text : List Char} {position : Nat} :
    separatorAt sep 0 .top text = some position ↔
      ∃ items behind, text = items.flatten ++ sep :: behind ∧ Skipped sep items ∧
        position = byteLength items.flatten := by
  constructor
  · intro hat
    have hhas : hasSeparator sep text = true := by
      rw [hasSeparator, ← isSome_separatorAt sep 0, hat]
      rfl
    obtain ⟨items, behind, rfl, hitems⟩ := exists_items_of_hasSeparator hhas
    rw [hitems.separatorAt_append, Option.some.injEq] at hat
    exact ⟨items, behind, rfl, hitems, hat.symm⟩
  · rintro ⟨items, behind, rfl, hitems, rfl⟩
    exact hitems.separatorAt_append behind

/-- A separator is **reported** if and only if nothing but items stands before it, none of which
begins with the separator; it is reported where they end. What stands in the items is never
reported, and nothing is behind what is never closed. -/
theorem hasSeparator_iff_exists_items {sep : Char} (hsep : sep.toNat < 0x80) (text : List Char) :
    Option.isSome <$> separatorFrom (utf8Bytes text) sep 0 = .ok (hasSeparator sep text) ∧
      (hasSeparator sep text = true ↔
        ∃ items behind, text = items.flatten ++ sep :: behind ∧ Skipped sep items) ∧
      (∀ position, separatorFrom (utf8Bytes text) sep 0 = .ok (some position) ↔
        ∃ items behind, text = items.flatten ++ sep :: behind ∧ Skipped sep items ∧
          position = byteLength items.flatten) ∧
      (∀ items behind, text = items.flatten ++ behind → Skipped sep items →
        hasSeparator sep text = hasSeparator sep behind) ∧
      ∀ items c rest, text = items.flatten ++ c :: rest → Skipped sep items → c ≠ sep →
        (∀ item behind, c :: rest = item ++ behind → ¬ IsItem item) →
          hasSeparator sep text = false := by
  have hfrom := separatorFrom_eq hsep (TailAt.whole text)
  refine ⟨?_, ⟨exists_items_of_hasSeparator, ?_⟩, fun position => ?_, ?_, ?_⟩
  · rw [hfrom, hasSeparator, ← isSome_separatorAt sep 0]
    rfl
  · rintro ⟨items, behind, rfl, hitems⟩
    rw [hitems.hasSeparator_append]
    simp [hasSeparator, hasSeparatorFrom]
  · rw [hfrom, Except.ok.injEq]
    exact separatorAt_eq_some_iff
  · rintro items behind rfl hitems
    exact hitems.hasSeparator_append behind
  · rintro items c rest rfl hitems hne hnone
    rw [hitems.hasSeparator_append]
    rcases item_or_unclosed c rest with ⟨tail, behind, hitem, rfl⟩ | hunclosed
    · exact absurd hitem (hnone _ behind rfl)
    · exact hasSeparator_of_unclosed hne hunclosed

/-- The comma behind `(,)` is reported, at the fourth byte. -/
theorem separatorFrom_behind_group :
    separatorFrom (utf8Bytes ['(', ',', ')', ',', 'c']) ',' 0 = .ok (some 3) := by
  have hbody : GroupBody .round [','] :=
    .char (by decide) (by decide) (by decide) (by decide) .nil
  have hitems : Skipped ',' [['(', ',', ')']] :=
    List.forall_mem_singleton.2 ⟨.group hbody, by decide⟩
  obtain ⟨-, -, hposition, -⟩ :=
    hasSeparator_iff_exists_items (show ','.toNat < 0x80 by decide) ['(', ',', ')', ',', 'c']
  exact (hposition 3).2 ⟨[['(', ',', ')']], ['c'], rfl, hitems, rfl⟩

end GridFormula.Scan
