import GridFormula.Proofs.Items

/-!
# Matching brackets

The bracket that closes a group is found by counting: the brackets of the group's kind are counted
up and down, and the group ends where the count is down to nothing again. Nothing is counted in an
escape pair or in a quotation. What is left of a text without them stands *bare* in it. So the group
ends at the first byte up to which, of the brackets of its kind that stand bare, as many open as
close.

The search goes through bytes with a counter. Its invariant ties the counter to the bare characters
that it has gone over: so many more brackets have been opened than closed. The counter stays above
zero on the way, and therefore the brackets balance nowhere on the way.

## Main definitions

* `Scan.bare`: the characters outside of escape pairs and quotations, with their positions.
* `Scan.Balanced`: as many brackets of a kind open as close, up to some byte.
* `Scan.Counted`: an opening bracket that the search counts.
* `Scan.Seen`: the invariant of the search.

## Main results

* `Scan.Seen.round`: a round of the search keeps the invariant, or it gives the right answer.
* `Scan.exists_sound`: the search gives the right answer.
* `Scan.bracketEnd_least_balanced`: what the search finds, what that depends on, and what is inside.
-/

namespace GridFormula.Scan

open Text (byteLength utf8Bytes dropBytes?)
open Checked (Comes)

/-! ### Bare characters -/

/-- The **quotation** that `c` opens in front of `rest`, if it does so and the quotation is closed:
what stands inside it, and what stands behind its closing mark. -/
def quotation? (c : Char) (rest : List Char) : Option (List Char × List Char) :=
  if isQuote c then splitAtTop ⟨none, some c, false⟩ rest else none

theorem quotation?_eq_some_iff {c : Char} {rest body behind : List Char} :
    quotation? c rest = some (body, behind) ↔
      isQuote c = true ∧ QuotedBody c body ∧ rest = body ++ c :: behind := by
  rw [quotation?]
  constructor
  · intro h
    split at h
    · next hquote =>
      rcases quotedBody_or c rest with ⟨body', behind', rfl, hbody⟩ | hnever
      · rw [hbody.splitAtTop_append hquote] at h
        cases h
        exact ⟨hquote, hbody, rfl⟩
      · rw [hnever none] at h
        cases h
    · cases h
  · rintro ⟨hquote, hbody, rfl⟩
    rw [if_pos hquote, hbody.splitAtTop_append hquote]

/-- The search for the end of a quotation goes by `quotation?`. -/
theorem quoteEnd_of_isQuote {c : Char} (hquote : isQuote c = true) {text rest : List Char} {i : Nat}
    (h : TailAt text i (c :: rest)) :
    quoteEnd (utf8Bytes text) i = .ok (cutAt (i + 1) (quotation? c rest)) := by
  rw [quotation?, if_pos hquote]
  exact quoteEnd_of_tailAt hquote h

/-- The characters of a text that stand **bare** in it, each with its byte position when the text
begins at `position`. Escape pairs and complete quotations are left out, and a backslash at the end,
which escapes nothing. A quotation mark that is never closed stands bare, and so does what is behind
it. -/
def bare (position : Nat) : List Char → List (Nat × Char)
  | [] => []
  | c :: rest =>
    if c = '\\' then
      match rest with
      | [] => []
      | d :: behind => bare (position + 1 + d.utf8Size) behind
    else
      match hcut : quotation? c rest with
      | some (body, behind) => bare (position + 1 + byteLength body + 1) behind
      | none => (position, c) :: bare (position + c.utf8Size) rest
termination_by text => text.length
decreasing_by
  · simp
  · obtain ⟨-, -, rfl⟩ := quotation?_eq_some_iff.1 hcut
    simp
    omega
  · simp

@[simp] theorem bare_nil (position : Nat) : bare position [] = [] := by
  rw [bare]

theorem bare_escape (position : Nat) (d : Char) (behind : List Char) :
    bare position ('\\' :: d :: behind) = bare (position + 1 + d.utf8Size) behind := by
  rw [bare, if_pos rfl]

theorem bare_backslash (position : Nat) : bare position ['\\'] = [] := by
  rw [bare, if_pos rfl]

section Bare

variable {position : Nat} {c : Char} {rest body behind : List Char}

theorem bare_quotation (hslash : c ≠ '\\') (h : quotation? c rest = some (body, behind)) :
    bare position (c :: rest) = bare (position + 1 + byteLength body + 1) behind := by
  rw [bare.eq_def]
  dsimp only
  rw [if_neg hslash]
  split
  · next hcut =>
    rw [h] at hcut
    cases hcut
    rfl
  · next hcut =>
    rw [h] at hcut
    cases hcut

theorem bare_cons (hslash : c ≠ '\\') (h : quotation? c rest = none) :
    bare position (c :: rest) = (position, c) :: bare (position + c.utf8Size) rest := by
  rw [bare.eq_def]
  dsimp only
  rw [if_neg hslash]
  split
  · next hcut =>
    rw [h] at hcut
    cases hcut
  · rfl

end Bare

theorem le_of_mem_bare {position : Nat} {text : List Char} {v : Nat × Char}
    (h : v ∈ bare position text) : position ≤ v.1 := by
  fun_induction bare position text with
  | case1 => cases h
  | case2 => cases h
  | case3 position d behind ih => exact Nat.le_trans (by omega) (ih h)
  | case4 position c rest _ body behind _ ih => exact Nat.le_trans (by omega) (ih h)
  | case5 position c rest _ _ ih =>
    rcases List.mem_cons.1 h with rfl | h
    · exact Nat.le_refl _
    · exact Nat.le_trans (Nat.le_add_right ..) (ih h)

theorem mem_bare_opener (bracket : Bracket) (position : Nat) (rest : List Char) :
    (position, bracket.opener) ∈ bare position (bracket.opener :: rest) := by
  have hslash : bracket.opener ≠ '\\' := by cases bracket <;> decide
  have hquote : quotation? bracket.opener rest = none := by cases bracket <;> rfl
  rw [bare_cons hslash hquote]
  exact List.mem_cons_self

/-- The characters that stand bare in a text **from** byte `start` on. -/
def bareFrom (text : List Char) (start : Nat) : List (Nat × Char) :=
  bare start ((dropBytes? start text).getD [])

/-- What is left of a text from byte `start` **up to** byte `stop` when escape pairs and complete
quotations are left out. Of a quotation that is complete in the text nothing is left, be it closed
before `stop` or behind. -/
def bareUpTo (text : List Char) (start stop : Nat) : List Char :=
  ((bareFrom text start).filter (·.1 ≤ stop)).map Prod.snd

theorem bareUpTo_of_split {text : List Char} {start stop : Nat} {seen later : List (Nat × Char)}
    (hrow : bareFrom text start = seen ++ later) (hseen : ∀ v ∈ seen, v.1 ≤ stop)
    (hlater : ∀ v ∈ later, stop < v.1) : bareUpTo text start stop = seen.map Prod.snd := by
  have hfirst : seen.filter (·.1 ≤ stop) = seen := List.filter_eq_self.2 (by simpa using hseen)
  have hrest : later.filter (·.1 ≤ stop) = [] := List.filter_eq_nil_iff.2 (by simpa using hlater)
  rw [bareUpTo, hrow, List.filter_append, hfirst, hrest, List.append_nil]

/-! ### What is to be found -/

/-- The brackets of a kind **balance** from byte `start` up to byte `stop`: of those that stand bare
there, as many open as close. -/
structure Balanced (bracket : Bracket) (text : List Char) (start stop : Nat) : Prop where
  start_le : start ≤ stop
  stop_lt : stop < byteLength text
  count_eq : (bareUpTo text start stop).count bracket.opener =
    (bareUpTo text start stop).count bracket.closer

/-- A quotation mark that is **never closed** stands bare at byte `position`. -/
structure Unterminated (text : List Char) (start position : Nat) : Prop where
  bare : ∃ mark, isQuote mark = true ∧ (position, mark) ∈ bareFrom text start
  quoteEnd_eq : quoteEnd (utf8Bytes text) position = .ok none

/-- The search for the bracket that closes the group at byte `start` **counts** an opening bracket
at byte `position`: a round of the search begins there. -/
structure Counted (bracket : Bracket) (text : List Char) (start position : Nat) : Prop where
  byte_eq : (utf8Bytes text)[position]? = some (asciiByte bracket.opener)
  comes : ∃ depth, Comes (bracketRound (utf8Bytes text) bracket) (start, 0) (position, depth)

/-- A closing bracket has been **found**. -/
structure Found (bracket : Bracket) (text : List Char) (start stop : Nat) : Prop where
  isLeast : IsLeast {e | Balanced bracket text start e} stop
  terminated : ∀ q < stop, ¬ Unterminated text start q
  counted : ∀ q < stop, (q, bracket.opener) ∈ bareFrom text start → Counted bracket text start q

/-- There is **no closing bracket** to be found: a quotation on the way is never closed, or the
brackets never balance. -/
def NotFound (bracket : Bracket) (text : List Char) (start : Nat) : Prop :=
  (∃ q, Unterminated text start q ∧ ∀ e ≤ q, ¬ Balanced bracket text start e) ∨
    ∀ e, ¬ Balanced bracket text start e

/-- A bracket that closes is none that opens. -/
theorem closer_ne_opener (bracket : Bracket) : bracket.closer ≠ bracket.opener := by
  cases bracket <;> decide

theorem ne_of_isQuote {c : Char} (hquote : isQuote c = true) (bracket : Bracket) :
    c ≠ bracket.opener ∧ c ≠ bracket.closer := by
  constructor <;> rintro rfl <;> cases bracket <;> cases hquote

/-! ### The invariant -/

/-- Byte `i` is **in front of** `rest`, or before some high bytes in front of it. -/
structure Before (text : List Char) (i : Nat) (highs : List UInt8) (rest : List Char) : Prop where
  isHigh : ∀ b ∈ highs, IsHigh b
  drop_eq : (utf8Bytes text).drop i = highs ++ utf8Bytes rest
  tailAt : rest ≠ [] → TailAt text (i + highs.length) rest

/-- What is **seen** of a text when the search is at byte `i` with `depth` open brackets. -/
structure Seen (bracket : Bracket) (text : List Char) (start i depth : Nat)
    (seen : List (Nat × Char)) : Prop where
  start_le : start ≤ i
  /-- On the way some bracket is open. -/
  depth_pos : start < i → 0 < depth
  /-- The bare characters are those seen, and those of the text in front of which the search is. -/
  row_eq : ∃ highs rest, Before text i highs rest ∧
    bareFrom text start = seen ++ bare (i + highs.length) rest
  lt_of_mem : ∀ v ∈ seen, v.1 < i
  /-- The counter tells how many more brackets have been opened than closed. -/
  count_eq : (seen.map Prod.snd).count bracket.opener =
    (seen.map Prod.snd).count bracket.closer + depth
  isQuote_eq : ∀ v ∈ seen, isQuote v.2 = false
  counted : ∀ v ∈ seen, v.2 = bracket.opener → Counted bracket text start v.1
  not_balanced : ∀ e < i, ¬ Balanced bracket text start e

/-- What a round of the search may **lead to**: the invariant, or the right answer. -/
def Sound (bracket : Bracket) (text : List Char) (start : Nat) : (Nat × Nat) ⊕ Option Nat → Prop
  | .inl (i, depth) => ∃ seen, Seen bracket text start i depth seen
  | .inr (some stop) => Found bracket text start stop
  | .inr none => NotFound bracket text start

/-- As long as some bracket is open, the brackets do not balance. -/
theorem not_balanced_of_split {bracket : Bracket} {text : List Char} {start stop depth : Nat}
    {seen later : List (Nat × Char)} (hrow : bareFrom text start = seen ++ later)
    (hseen : ∀ v ∈ seen, v.1 ≤ stop) (hlater : ∀ v ∈ later, stop < v.1)
    (hcount : (seen.map Prod.snd).count bracket.opener =
      (seen.map Prod.snd).count bracket.closer + depth) (hdepth : 0 < depth) :
    ¬ Balanced bracket text start stop := by
  intro h
  have heq := h.count_eq
  rw [bareUpTo_of_split hrow hseen hlater, hcount] at heq
  omega

theorem before_of_tailAt {text rest : List Char} {i : Nat} (h : TailAt text i rest) :
    Before text i [] rest where
  isHigh := List.forall_mem_nil _
  drop_eq := h.drop_utf8Bytes
  tailAt _ := h

theorem Before.of_byte {text rest : List Char} {i : Nat} {highs : List UInt8}
    (h : Before text i highs rest) {c : Char} (hc : c.toNat < 0x80)
    (hbyte : (utf8Bytes text)[i]? = some (asciiByte c)) :
    highs = [] ∧ ∃ behind, rest = c :: behind := by
  rw [← List.head?_drop, h.drop_eq] at hbyte
  cases highs with
  | cons b more =>
    have hb : IsHigh b := h.isHigh b List.mem_cons_self
    exact absurd (Option.some.inj hbyte) (asciiByte_ne_of_isHigh hc hb)
  | nil =>
    refine ⟨rfl, ?_⟩
    cases rest with
    | nil => cases hbyte
    | cons d behind =>
      obtain ⟨b, more, hbytes, -, hfirst⟩ := exists_firstByte d
      rw [List.nil_append, utf8Bytes_cons, hbytes, List.cons_append] at hbyte
      obtain rfl : d = c := (hfirst c hc).1 (Option.some.inj hbyte)
      exact ⟨behind, rfl⟩

/-- Behind the first byte of a character the next character begins, or there are a few high bytes
before it. -/
theorem exists_before_of_tailAt {text rest : List Char} {c : Char} {i : Nat}
    (h : TailAt text i (c :: rest)) :
    ∃ highs, Before text (i + 1) highs rest ∧ i + 1 + highs.length = i + c.utf8Size := by
  obtain ⟨b, highs, hbytes, hhigh, -⟩ := exists_firstByte c
  have hsize : c.utf8Size = highs.length + 1 := by
    rw [← String.length_utf8EncodeChar, hbytes, List.length_cons]
  have hposition : i + 1 + highs.length = i + c.utf8Size := by omega
  have hdrop := h.drop_utf8Bytes
  rw [utf8Bytes_cons, hbytes, List.cons_append] at hdrop
  exact ⟨highs, ⟨hhigh, drop_succ_of_drop hdrop, fun _ => hposition ▸ h.rest⟩, hposition⟩

section Rounds

variable {bracket : Bracket} {text : List Char} {start i depth : Nat} {seen : List (Nat × Char)}

/-- The search **goes on** from byte `i` to byte `i'`, over a bare character or none, and some
bracket stays open. -/
theorem Seen.advance (h : Seen bracket text start i depth seen) {i' depth' : Nat}
    {highs : List UInt8} {rest : List Char} {extra : List (Nat × Char)}
    (hbefore : Before text i' highs rest) (hlater : i < i') (hdepth : 0 < depth')
    (hrow : bareFrom text start = seen ++ extra ++ bare (i' + highs.length) rest)
    (hextra : ∀ v ∈ extra, v.1 = i ∧ isQuote v.2 = false ∧
      (v.2 = bracket.opener → Counted bracket text start i))
    (hcount : (extra.map Prod.snd).count bracket.opener + depth =
      (extra.map Prod.snd).count bracket.closer + depth') :
    Seen bracket text start i' depth' (seen ++ extra) := by
  have hle : ∀ v ∈ seen ++ extra, v.1 ≤ i := by
    intro v hv
    rcases List.mem_append.1 hv with hv | hv
    · exact Nat.le_of_lt (h.lt_of_mem v hv)
    · exact Nat.le_of_eq (hextra v hv).1
  have hcounts : ((seen ++ extra).map Prod.snd).count bracket.opener =
      ((seen ++ extra).map Prod.snd).count bracket.closer + depth' := by
    have hseen := h.count_eq
    simp only [List.map_append, List.count_append]
    omega
  refine ⟨Nat.le_trans h.start_le (Nat.le_of_lt hlater), fun _ => hdepth,
    ⟨highs, rest, hbefore, hrow⟩, fun v hv => Nat.lt_of_le_of_lt (hle v hv) hlater, hcounts,
    fun v hv => ?_, fun v hv hopen => ?_, fun e he => ?_⟩
  · rcases List.mem_append.1 hv with hv | hv
    · exact h.isQuote_eq v hv
    · exact (hextra v hv).2.1
  · rcases List.mem_append.1 hv with hv | hv
    · exact h.counted v hv hopen
    · obtain ⟨hposition, -, hcounted⟩ := hextra v hv
      exact hposition ▸ hcounted hopen
  · by_cases hbehind : e < i
    · exact h.not_balanced e hbehind
    · refine not_balanced_of_split hrow (fun v hv => Nat.le_trans (hle v hv) (Nat.not_lt.1 hbehind))
        (fun v hv => ?_) hcounts hdepth
      have hposition := le_of_mem_bare hv
      omega

theorem Seen.depth_pos_of_byte (h : Seen bracket text start i depth seen)
    (hstart : (utf8Bytes text)[start]? = some (asciiByte bracket.opener))
    (hbyte : (utf8Bytes text)[i]? ≠ some (asciiByte bracket.opener)) : 0 < depth := by
  refine h.depth_pos (Nat.lt_of_le_of_ne h.start_le ?_)
  rintro rfl
  exact hbyte hstart

/-- The search **goes on** over what is left out. -/
theorem Seen.skip (h : Seen bracket text start i depth seen) (hdepth : 0 < depth) {i' : Nat}
    {highs : List UInt8} {rest : List Char} (hbefore : Before text i' highs rest)
    (hlater : i < i') (hrow : bareFrom text start = seen ++ bare (i' + highs.length) rest) :
    Seen bracket text start i' depth seen := by
  have hnil : Seen bracket text start i' depth (seen ++ []) :=
    h.advance hbefore hlater hdepth (by rw [List.append_nil, hrow]) (List.forall_mem_nil _) rfl
  rwa [List.append_nil] at hnil

/-- At the end of the text the brackets have not balanced. -/
theorem Seen.notFound (h : Seen bracket text start i depth seen) (hend : byteLength text ≤ i) :
    NotFound bracket text start := by
  refine .inr fun e hbalanced => h.not_balanced e ?_ hbalanced
  exact Nat.lt_of_lt_of_le hbalanced.stop_lt hend

section Char

variable {c : Char} {rest : List Char} (h : Seen bracket text start i depth seen)
  (htail : TailAt text i (c :: rest)) (hrow : bareFrom text start = seen ++ bare i (c :: rest))
include h htail hrow

theorem Seen.backslash (hdepth : 0 < depth) (hslash : c = '\\') :
    Seen bracket text start (i + 2) depth seen := by
  subst hslash
  have hrest : TailAt text (i + 1) rest := htail.rest
  cases rest with
  | nil =>
    have hend : byteLength text ≤ i + 2 := by
      rw [← hrest.add_byteLength]
      exact Nat.le_succ _
    have hbefore : Before text (i + 2) [] [] := by
      refine ⟨List.forall_mem_nil _, List.drop_eq_nil_of_le ?_, fun hne => absurd rfl hne⟩
      rwa [Text.length_utf8Bytes]
    rw [bare_backslash] at hrow
    exact h.skip hdepth hbefore (by omega) (by rw [hrow, bare_nil])
  | cons d behind =>
    obtain ⟨highs, hbefore, hposition⟩ := exists_before_of_tailAt hrest
    rw [bare_escape, ← hposition] at hrow
    exact h.skip hdepth hbefore (by omega) hrow

theorem Seen.quotation (hdepth : 0 < depth) (hslash : c ≠ '\\') {body behind : List Char}
    (hcut : quotation? c rest = some (body, behind)) :
    Seen bracket text start (i + 1 + byteLength body + 1) depth seen := by
  obtain ⟨hquote, -, rfl⟩ := quotation?_eq_some_iff.1 hcut
  have hbehind := htail.rest.append.rest
  rw [utf8Size_of_isQuote hquote] at hbehind
  rw [bare_quotation hslash hcut] at hrow
  exact h.skip hdepth (before_of_tailAt hbehind) (by omega) hrow

omit htail in
/-- When `c` stands bare, what is left of the text up to it is what has been seen, and `c`. -/
theorem Seen.bareUpTo_eq (hslash : c ≠ '\\') (hcut : quotation? c rest = none) :
    bareUpTo text start i = (seen ++ [(i, c)]).map Prod.snd := by
  rw [bare_cons hslash hcut, List.append_cons] at hrow
  refine bareUpTo_of_split hrow (fun v hv => ?_) (fun v hv => ?_)
  · rcases List.mem_append.1 hv with hv | hv
    · exact Nat.le_of_lt (h.lt_of_mem v hv)
    · rw [List.mem_singleton.1 hv]
  · exact Nat.lt_of_lt_of_le (Nat.lt_add_of_pos_right c.utf8Size_pos) (le_of_mem_bare hv)

/-- A quotation mark that is never closed ends the search. -/
theorem Seen.unterminated (hdepth : 0 < depth) (hquote : isQuote c = true)
    (hcut : quotation? c rest = none) : NotFound bracket text start := by
  have hupTo := h.bareUpTo_eq hrow (ne_backslash_of_isQuote hquote) hcut
  have hstop := quoteEnd_of_isQuote hquote htail
  rw [hcut] at hstop
  rw [bare_cons (ne_backslash_of_isQuote hquote) hcut] at hrow
  have hmark : (i, c) ∈ bareFrom text start := by simp [hrow]
  refine .inl ⟨i, ⟨⟨c, hquote, hmark⟩, hstop⟩, fun e he hbalanced => ?_⟩
  rcases Nat.lt_or_eq_of_le he with hlt | rfl
  · exact h.not_balanced e hlt hbalanced
  · -- the mark is no bracket, so as many brackets are open behind it as before
    obtain ⟨hopen, hclose⟩ := ne_of_isQuote hquote bracket
    have hcount := hbalanced.count_eq
    rw [hupTo, List.map_append, List.count_append, List.count_append, h.count_eq] at hcount
    simp [hopen, hclose] at hcount
    omega

section Plain

variable (hslash : c ≠ '\\') (hquote : ¬ isQuote c = true)
include hslash hquote

/-- The search **goes on** behind a bare character, which may open or close a bracket. -/
theorem Seen.bareChar {depth' : Nat} (hdepth : 0 < depth')
    (hcount : [c].count bracket.opener + depth = [c].count bracket.closer + depth')
    (hcounted : c = bracket.opener → Counted bracket text start i) :
    Seen bracket text start (i + 1) depth' (seen ++ [(i, c)]) := by
  obtain ⟨highs, hbefore, hposition⟩ := exists_before_of_tailAt htail
  rw [bare_cons hslash (if_neg hquote), List.append_cons, ← hposition] at hrow
  refine h.advance hbefore (Nat.lt_succ_self i) hdepth hrow ?_ hcount
  rintro v hv
  obtain rfl := List.mem_singleton.1 hv
  exact ⟨rfl, Bool.eq_false_iff.2 hquote, hcounted⟩

/-- The last open bracket has been closed: the closing bracket is **found**. -/
theorem Seen.found (hdepth : depth = 1) (hclose : c = bracket.closer) :
    Found bracket text start i := by
  have hupTo := h.bareUpTo_eq hrow hslash (if_neg hquote)
  have hmem : ∀ v ∈ bareFrom text start, v.1 < i → v ∈ seen := by
    intro v hv hlt
    rw [hrow] at hv
    refine (List.mem_append.1 hv).resolve_right fun hlater => ?_
    exact absurd (le_of_mem_bare hlater) (Nat.not_le.2 hlt)
  refine ⟨⟨⟨h.start_le, ?_, ?_⟩, fun e he => ?_⟩, ?_, ?_⟩
  · rw [← htail.add_byteLength, Text.byteLength_cons]
    exact Nat.lt_add_of_pos_right (Nat.add_pos_left c.utf8Size_pos _)
  · rw [hupTo, List.map_append, List.count_append, List.count_append, h.count_eq, hdepth, hclose]
    simp [closer_ne_opener bracket]
  · exact Nat.not_lt.1 fun hlt => h.not_balanced e hlt he
  · rintro q hq ⟨⟨mark, hmark, hq'⟩, -⟩
    have hnone := h.isQuote_eq _ (hmem _ hq' hq)
    exact absurd hmark (Bool.eq_false_iff.1 hnone)
  · exact fun q hq hq' => h.counted _ (hmem _ hq' hq) rfl

end Plain

end Char

section Start

variable (hstart : (utf8Bytes text)[start]? = some (asciiByte bracket.opener))
  (h : Seen bracket text start i depth seen)
include hstart h

/-- In the middle of a character the search goes on to the next byte. -/
theorem Seen.high {b : UInt8} {more : List UInt8} {rest : List Char}
    (hbefore : Before text i (b :: more) rest)
    (hrow : bareFrom text start = seen ++ bare (i + (b :: more).length) rest) :
    bracketRound (utf8Bytes text) bracket (i, depth) = .ok (.inl (i + 1, depth)) ∧
      Seen bracket text start (i + 1) depth seen := by
  have hdrop := hbefore.drop_eq
  obtain ⟨hb, hmore⟩ := List.forall_mem_cons.1 hbefore.isHigh
  have hposition : i + (b :: more).length = i + 1 + more.length := by
    rw [List.length_cons]
    omega
  have hbyte : (utf8Bytes text)[i]? ≠ some (asciiByte bracket.opener) := by
    rw [← List.head?_drop, hdrop]
    exact fun heq => asciiByte_ne_of_isHigh (toNat_opener_lt bracket) hb (Option.some.inj heq)
  have hnext : Before text (i + 1) more rest :=
    ⟨hmore, drop_succ_of_drop hdrop, fun hne => hposition ▸ hbefore.tailAt hne⟩
  rw [hposition] at hrow
  exact ⟨bracketRound_high bracket depth hdrop hb,
    h.skip (h.depth_pos_of_byte hstart hbyte) hnext (Nat.lt_succ_self i) hrow⟩

section Round

variable {c : Char} {rest : List Char} (htail : TailAt text i (c :: rest))
  (hrow : bareFrom text start = seen ++ bare i (c :: rest))
include htail

theorem Seen.depth_pos_of_ne (hopen : c ≠ bracket.opener) : 0 < depth := by
  obtain ⟨b, hbyte, -, hfirst⟩ := htail.exists_byteAt
  refine h.depth_pos_of_byte hstart ?_
  rw [getElem?_eq_some_of_byteAt hbyte]
  exact fun heq => hopen ((hfirst _ (toNat_opener_lt bracket)).1 (Option.some.inj heq))

include hrow

/-- A round at a quotation mark goes over the quotation, or it is the last. -/
theorem Seen.round_quote (hquote : isQuote c = true) :
    ∃ outcome, bracketRound (utf8Bytes text) bracket (i, depth) = .ok outcome ∧
      Sound bracket text start outcome := by
  obtain ⟨b, hbyte, hlt, hfirst⟩ := htail.exists_byteAt
  have hslash := ne_backslash_of_isQuote hquote
  have hslash' := mt (hfirst _ (by decide)).1 hslash
  have hmark := (quoteByte_iff hfirst).2 hquote
  have hdepth := h.depth_pos_of_ne hstart htail (ne_of_isQuote hquote bracket).1
  have hstop := quoteEnd_of_isQuote hquote htail
  cases hcut : quotation? c rest with
  | none =>
    rw [hcut] at hstop
    exact ⟨_, bracketRound_unclosed bracket depth hlt hbyte hslash' hmark hstop,
      h.unterminated htail hrow hdepth hquote hcut⟩
  | some cut =>
    rw [hcut] at hstop
    exact ⟨_, bracketRound_quote bracket depth hlt hbyte hslash' hmark hstop,
      seen, h.quotation htail hrow hdepth hslash hcut⟩

/-- A round at a bare character counts it, if it is a bracket of the kind. At the last closing
bracket it is the last. -/
theorem Seen.round_plain (hslash : c ≠ '\\') (hquote : ¬ isQuote c = true)
    (hcomes : Comes (bracketRound (utf8Bytes text) bracket) (start, 0) (i, depth)) :
    ∃ outcome, bracketRound (utf8Bytes text) bracket (i, depth) = .ok outcome ∧
      Sound bracket text start outcome := by
  obtain ⟨b, hbyte, hlt, hfirst⟩ := htail.exists_byteAt
  have hslash' := mt (hfirst _ (by decide)).1 hslash
  have hquote' := mt (quoteByte_iff hfirst).1 hquote
  by_cases hopen : c = bracket.opener
  · have hb : b = asciiByte bracket.opener := (hfirst _ (toNat_opener_lt bracket)).2 hopen
    have hcounted : Counted bracket text start i :=
      ⟨hb ▸ getElem?_eq_some_of_byteAt hbyte, depth, hcomes⟩
    have hcount : [c].count bracket.opener + depth = [c].count bracket.closer + (depth + 1) := by
      simp [hopen, (closer_ne_opener bracket).symm]
      omega
    exact ⟨_, bracketRound_opener bracket depth hlt hbyte hslash' hquote' hb, _,
      h.bareChar htail hrow hslash hquote (Nat.succ_pos depth) hcount fun _ => hcounted⟩
  have hopen' := mt (hfirst _ (toNat_opener_lt bracket)).1 hopen
  have hdepth := h.depth_pos_of_ne hstart htail hopen
  by_cases hclose : c = bracket.closer
  · obtain ⟨inner, rfl⟩ := Nat.exists_eq_succ_of_ne_zero (Nat.ne_of_gt hdepth)
    have hround := bracketRound_closer bracket hlt hbyte hslash' hquote' hopen'
      ((hfirst _ (toNat_closer_lt bracket)).2 hclose) inner
    by_cases hinner : inner = 0
    · rw [if_pos hinner] at hround
      exact ⟨_, hround, h.found htail hrow hslash hquote (by rw [hinner]) hclose⟩
    · rw [if_neg hinner] at hround
      have hcount : [c].count bracket.opener + (inner + 1) = [c].count bracket.closer + inner := by
        simp [hclose, closer_ne_opener bracket]
        omega
      exact ⟨_, hround, _, h.bareChar htail hrow hslash hquote (Nat.pos_of_ne_zero hinner) hcount
        fun heq => absurd heq hopen⟩
  · have hclose' := mt (hfirst _ (toNat_closer_lt bracket)).1 hclose
    have hcount : [c].count bracket.opener + depth = [c].count bracket.closer + depth := by
      simp [hopen, hclose]
    exact ⟨_, bracketRound_other bracket depth hlt hbyte hslash' hquote' hopen' hclose', _,
      h.bareChar htail hrow hslash hquote hdepth hcount fun heq => absurd heq hopen⟩

end Round

/-- A **round** of the search keeps the invariant, or it gives the right answer. -/
theorem Seen.round (hcomes : Comes (bracketRound (utf8Bytes text) bracket) (start, 0) (i, depth)) :
    ∃ outcome, bracketRound (utf8Bytes text) bracket (i, depth) = .ok outcome ∧
      Sound bracket text start outcome := by
  obtain ⟨highs, rest, hbefore, hrow⟩ := h.row_eq
  cases highs with
  | cons b more =>
    obtain ⟨hround, hnext⟩ := h.high hstart hbefore hrow
    exact ⟨_, hround, seen, hnext⟩
  | nil =>
    cases rest with
    | nil =>
      have hend : (utf8Bytes text).length ≤ i := List.drop_eq_nil_iff.1 hbefore.drop_eq
      exact ⟨_, if_neg (Nat.not_lt.2 hend), h.notFound (Text.length_utf8Bytes text ▸ hend)⟩
    | cons c rest =>
      have htail : TailAt text i (c :: rest) := hbefore.tailAt (List.cons_ne_nil c rest)
      by_cases hslash : c = '\\'
      · obtain ⟨b, hbyte, hlt, hfirst⟩ := htail.exists_byteAt
        have hopen : c ≠ bracket.opener := by
          rw [hslash]
          cases bracket <;> decide
        exact ⟨_, bracketRound_backslash bracket depth hlt hbyte ((hfirst _ (by decide)).2 hslash),
          seen, h.backslash htail hrow (h.depth_pos_of_ne hstart htail hopen) hslash⟩
      by_cases hquote : isQuote c = true
      · exact h.round_quote hstart htail hrow hquote
      · exact h.round_plain hstart htail hrow hslash hquote hcomes

end Start

end Rounds

/-! ### The search -/

section Search

variable {text : List Char} {bracket : Bracket} {start stop q : Nat}
  (hstart : (utf8Bytes text)[start]? = some (asciiByte bracket.opener))

section Start

include hstart

theorem seen_start : Seen bracket text start start 0 [] := by
  obtain ⟨rest, htail⟩ := exists_tailAt_of_byte (toNat_opener_lt bracket) hstart
  have hrow : bareFrom text start = bare start (bracket.opener :: rest) := by
    obtain ⟨before, rfl, rfl⟩ := htail
    rw [bareFrom, Text.dropBytes?_append, Option.getD_some]
  refine ⟨Nat.le_refl _, fun hlt => absurd hlt (Nat.lt_irrefl _),
    ⟨[], _, before_of_tailAt htail, hrow⟩, List.forall_mem_nil _, rfl, List.forall_mem_nil _,
    List.forall_mem_nil _, fun e he hbalanced => ?_⟩
  exact Nat.not_lt.2 hbalanced.start_le he

/-- The invariant holds **wherever the search comes to**, by induction on its rounds. -/
theorem exists_seen_of_comes {s : Nat × Nat}
    (hcomes : Comes (bracketRound (utf8Bytes text) bracket) (start, 0) s) :
    ∃ seen, Seen bracket text start s.1 s.2 seen := by
  induction hcomes with
  | refl => exact ⟨[], seen_start hstart⟩
  | tail hcomes hround ih =>
    obtain ⟨seen, hseen⟩ := ih
    obtain ⟨outcome, houtcome, hsound⟩ := hseen.round hstart hcomes
    rw [hround] at houtcome
    cases houtcome
    exact hsound

/-- The search ends, and it **gives the right answer**. -/
theorem exists_sound : ∃ result, bracketEnd (utf8Bytes text) bracket start = .ok result ∧
    Sound bracket text start (.inr result) := by
  have hend := bracketEnd_eq text bracket start
  refine ⟨_, hend, ?_⟩
  rw [bracketEnd, if_pos hstart] at hend
  obtain ⟨last, hcomes, hlast⟩ := Checked.exists_last_of_loop hend
  obtain ⟨seen, hseen⟩ := exists_seen_of_comes hstart hcomes
  obtain ⟨outcome, houtcome, hsound⟩ := hseen.round hstart hcomes
  rw [hlast] at houtcome
  cases houtcome
  exact hsound

end Start

/-- What is found excludes that nothing is to be found. -/
theorem not_notFound (hleast : IsLeast {e | Balanced bracket text start e} stop)
    (hterminated : ∀ q < stop, ¬ Unterminated text start q) : ¬ NotFound bracket text start := by
  rintro (⟨q, hq, hnone⟩ | hnone)
  · rcases Nat.lt_or_ge q stop with hlt | hle
    · exact hterminated q hlt hq
    · exact hnone stop hle hleast.1
  · exact hnone stop hleast.1

include hstart

theorem found_of_bracketEnd (h : bracketEnd (utf8Bytes text) bracket start = .ok (some stop)) :
    Found bracket text start stop := by
  obtain ⟨result, hresult, hsound⟩ := exists_sound hstart
  rw [h] at hresult
  cases hresult
  exact hsound

/-- The search gives the **least byte up to which the brackets balance**, if there is no quotation
before it that is never closed. -/
theorem bracketEnd_eq_some_iff : bracketEnd (utf8Bytes text) bracket start = .ok (some stop) ↔
    IsLeast {e | Balanced bracket text start e} stop ∧ ∀ q < stop, ¬ Unterminated text start q := by
  constructor
  · intro h
    have hfound := found_of_bracketEnd hstart h
    exact ⟨hfound.isLeast, hfound.terminated⟩
  · rintro ⟨hleast, hterminated⟩
    obtain ⟨result, hresult, hsound⟩ := exists_sound hstart
    cases result with
    | none => exact absurd hsound (not_notFound hleast hterminated)
    | some stop' => rw [hresult, hleast.unique hsound.isLeast]

theorem bracketEnd_eq_none_iff : bracketEnd (utf8Bytes text) bracket start = .ok none ↔
    NotFound bracket text start := by
  obtain ⟨result, hresult, hsound⟩ := exists_sound hstart
  cases result with
  | none => exact iff_of_true hresult hsound
  | some stop =>
    refine iff_of_false ?_ (not_notFound hsound.isLeast hsound.terminated)
    rw [hresult]
    exact fun heq => Option.some_ne_none stop (Except.ok.inj heq)

/-- The brackets that the search counts are those that **stand bare** in the text. -/
theorem Found.counted_iff (h : Found bracket text start stop) (hq : q < stop) :
    Counted bracket text start q ↔ (q, bracket.opener) ∈ bareFrom text start := by
  refine ⟨?_, h.counted q hq⟩
  rintro ⟨hbyte, depth, hcomes⟩
  obtain ⟨seen, hseen⟩ := exists_seen_of_comes hstart hcomes
  obtain ⟨highs, rest, hbefore, hrow⟩ := hseen.row_eq
  obtain ⟨rfl, rest, rfl⟩ := hbefore.of_byte (toNat_opener_lt bracket) hbyte
  rw [hrow]
  exact List.mem_append_right seen (mem_bare_opener bracket q rest)

/-- A bracket that the search counts is **closed inside** the group: of the brackets that are open
there it is the last, so it is closed before the others. -/
theorem exists_closer_of_counted
    (h : bracketEnd (utf8Bytes text) bracket start = .ok (some stop))
    (hcounted : Counted bracket text start q) (hlt : start < q) :
    ∃ stop', q < stop' ∧ stop' < stop ∧
      bracketEnd (utf8Bytes text) bracket q = .ok (some stop') := by
  obtain ⟨hbyte, depth, hcomes⟩ := hcounted
  obtain ⟨seen, hseen⟩ := exists_seen_of_comes hstart hcomes
  obtain ⟨inner, rfl⟩ := Nat.exists_eq_succ_of_ne_zero (Nat.ne_of_gt (hseen.depth_pos hlt))
  obtain ⟨rest, htail⟩ := exists_tailAt_of_byte (toNat_opener_lt bracket) hbyte
  have hrest := htail.rest
  rw [utf8Size_opener] at hrest
  -- the search goes on from the bracket, and ends where that of the group does
  rw [bracketEnd, if_pos hstart] at h
  have hloop : bracketLoop (utf8Bytes text) bracket (inner + 1) q = .ok (some stop) :=
    Checked.loop_of_comes h hcomes
  obtain ⟨-, -, hbound, -⟩ := htail.exists_byteAt
  rw [bracketLoop_of_next (bracketRound_of_tailAt htail (inner + 1)) hbound (Nat.lt_succ_self q),
    closes_of_tailAt hrest (inner + 1), Except.ok.injEq] at hloop
  rcases closedOrNot bracket rest with ⟨body, behind, rfl, hbody⟩ | hnever
  · have hdeeper := hbody.leads (inner + 1)
    rw [splitAtTop_append_of_none hdeeper.splitAtTop_eq, hdeeper.run_eq,
      splitAtTop_cons (step_closer bracket inner) rfl] at hloop
    simp only [cutAt, Option.map_map, Option.map_eq_some_iff, Function.comp_apply,
      Text.byteLength_append, Text.byteLength_cons, utf8Size_closer] at hloop
    obtain ⟨cut, -, rfl⟩ := hloop
    refine ⟨q + 1 + byteLength body, by omega, by omega, ?_⟩
    rw [bracketEnd_of_tailAt htail, hbody.splitAtCloser_append behind]
    rfl
  · rw [hnever] at hloop
    cases hloop

/-- What is found **depends on the group alone**: where the same text stands elsewhere, with
anything in front of it and behind it, its last byte is found as well. -/
theorem exists_slice_of_bracketEnd
    (h : bracketEnd (utf8Bytes text) bracket start = .ok (some stop)) :
    ∃ part, Checked.slice text start (stop + 1) = .ok part ∧
      ∀ text' start' stop', Checked.slice text' start' stop' = .ok part →
        bracketEnd (utf8Bytes text') bracket start' = .ok (some (start' + (stop - start))) := by
  obtain ⟨rest, htail⟩ := exists_tailAt_of_byte (toNat_opener_lt bracket) hstart
  rw [bracketEnd_of_tailAt htail, Except.ok.injEq, cutAt, Option.map_eq_some_iff] at h
  obtain ⟨⟨body, behind⟩, hcut, rfl⟩ := h
  obtain rfl := eq_append_closer_of_splitAtTop rfl hcut
  have hparts (behind : List Char) : bracket.opener :: (body ++ [bracket.closer]) ++ behind =
      bracket.opener :: (body ++ bracket.closer :: behind) := by simp
  refine ⟨bracket.opener :: (body ++ [bracket.closer]), ?_, fun text' start' stop' hslice => ?_⟩
  · rw [← hparts behind] at htail
    have hlength : start + byteLength (bracket.opener :: (body ++ [bracket.closer])) =
        start + 1 + byteLength body + 1 := by
      simp only [Text.byteLength_cons, Text.byteLength_append, Text.byteLength_nil,
        utf8Size_opener, utf8Size_closer]
      omega
    exact hlength ▸ htail.slice
  · obtain ⟨behind', htail'⟩ := tailAt_of_slice hslice
    rw [hparts behind'] at htail'
    have hcut' : splitAtCloser bracket (body ++ bracket.closer :: behind') = some (body, behind') :=
      splitAtTop_append hcut behind'
    rw [bracketEnd_of_tailAt htail', hcut']
    simp only [cutAt, Option.map_some, Except.ok.injEq, Option.some.injEq]
    omega

/-- The search for the bracket that closes a group finds the **least byte up to which the brackets
of its kind balance**, and nothing if there is none or a quotation before it is never closed. What
it finds depends on the text of the group alone. The opening brackets that it counts are those that
stand bare, and inside the group each of them is closed inside the group, by the bracket that a
search from there finds. -/
theorem bracketEnd_least_balanced :
    (∀ stop, bracketEnd (utf8Bytes text) bracket start = .ok (some stop) ↔
      IsLeast {e | Balanced bracket text start e} stop ∧
        ∀ q < stop, ¬ Unterminated text start q) ∧
      (bracketEnd (utf8Bytes text) bracket start = .ok none ↔
        (∃ q, Unterminated text start q ∧ ∀ e ≤ q, ¬ Balanced bracket text start e) ∨
          ∀ e, ¬ Balanced bracket text start e) ∧
      ∀ stop, bracketEnd (utf8Bytes text) bracket start = .ok (some stop) →
        (∃ part, Checked.slice text start (stop + 1) = .ok part ∧
          ∀ text' start' stop', Checked.slice text' start' stop' = .ok part →
            bracketEnd (utf8Bytes text') bracket start' = .ok (some (start' + (stop - start)))) ∧
        ∀ q, start < q → q < stop →
          (Counted bracket text start q ↔ (q, bracket.opener) ∈ bareFrom text start) ∧
          (Counted bracket text start q → ∃ stop', q < stop' ∧ stop' < stop ∧
            bracketEnd (utf8Bytes text) bracket q = .ok (some stop')) := by
  refine ⟨fun stop => bracketEnd_eq_some_iff hstart, bracketEnd_eq_none_iff hstart,
    fun stop hstop => ⟨exists_slice_of_bracketEnd hstart hstop, fun q hlt hq => ⟨?_, ?_⟩⟩⟩
  · exact (found_of_bracketEnd hstart hstop).counted_iff hstart hq
  · exact fun hcounted => exists_closer_of_counted hstart hstop hcounted hlt

end Search

/-- In `(é(")")\))` the group ends at the last byte, and the group inside it ends before that. -/
theorem bracketEnd_least_balanced_nested :
    (utf8Bytes "(é(\")\")\\))".toList)[0]? = some (asciiByte Bracket.round.opener) ∧
      IsLeast {e | Balanced .round "(é(\")\")\\))".toList 0 e} 10 ∧
      Counted .round "(é(\")\")\\))".toList 0 3 ∧
      ∃ stop', 3 < stop' ∧ stop' < 10 ∧
        bracketEnd (utf8Bytes "(é(\")\")\\))".toList) .round 3 = .ok (some stop') := by
  have hstart : (utf8Bytes "(é(\")\")\\))".toList)[0]? = some (asciiByte Bracket.round.opener) :=
    rfl
  have hclosing : closing? .round "(é(\")\")\\))".toList 0 = some 10 := by decide
  have hend := (bracketEnd_eq "(é(\")\")\\))".toList .round 0).trans (congrArg Except.ok hclosing)
  obtain ⟨hsome, -, hinside⟩ := bracketEnd_least_balanced hstart
  obtain ⟨-, hnested⟩ := hinside 10 hend
  obtain ⟨-, hmatch⟩ := hnested 3 (by decide) (by decide)
  have hcounted : Counted .round "(é(\")\")\\))".toList 0 3 :=
    ⟨rfl, 1, .head (b := (1, 1)) rfl (.head (b := (2, 1)) rfl (.single rfl))⟩
  exact ⟨hstart, ((hsome 10).1 hend).1, hcounted, hmatch hcounted⟩

end GridFormula.Scan
