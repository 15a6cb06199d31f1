import GridFormula.Proofs.Nesting

/-!
# Reading without a limit

The reader that has no limit to its levels of nesting: it reads what is nested in an operand by
itself. A text has an end, so with enough levels the limit is never met. How many are enough for a
stream is its weight, and the reader is that with as many levels as its stream is heavy.

Compared with it, the limit refuses what nests too deeply and nothing else, and the error is at the
leftmost opener that stands too deep.

## Main definitions

* `TokenStream.weight`: what bounds the nesting in a stream.
* `Expr.AgreeUpTo`: readers that answer the same for streams up to some weight.
* `Expr.unlimited`, `Expr.readUnlimited`: reading without a limit.
* `Opener.FirstBeyond`: the leftmost opener that stands too deep.

## Main results

* `Expr.agree_operandAt`: levels that are enough are as good as any more.
* `Expr.unlimited_eq`, `Expr.eq_unlimited`: the reader without a limit is the one that reads what is
  nested by itself.
* `Expr.readUnlimited_eq_ok_iff`: without a limit exactly the formulas are read.
* `Formula.nesting_le_iff`: the nesting of an expression is the level of the deepest opener.
* `Expr.compileAt_of_readUnlimited`: what the limit changes.
-/

namespace GridFormula

open Text (byteLength)

/-! ### Weights -/

namespace TokenStream

/-- The **weight** of a stream, which is greater than that of any stream that is read for what is
nested in it. -/
def weight : TokenStream → Nat
  | .finish _ | .broken _ => 0
  | .openCall .. => 1
  | .token _ _ rest => rest.weight + 1
  | .call _ _ _ arguments rest => rest.weight + arguments.length + 2

theorem weight_ofTextAt_le (position : Nat) (text : List Char) :
    (ofTextAt position text).weight ≤ text.length := by
  fun_induction ofTextAt position text with
  | case1 | case2 => exact Nat.zero_le _
  | case3 position text start c behind htext lexeme stop name hread hopening ih =>
    exact Nat.lt_of_le_of_lt ih (length_lt_of_lexeme htext)
  | case4 position text start c behind htext =>
    exact Nat.succ_le_of_lt (Nat.zero_lt_of_lt (length_lt_of_lexeme htext))
  | case5 position text start c behind htext lexeme stop name hread opening inside hopening arguments
      outside hsplit ih =>
    have hlexeme := length_lt_of_lexeme htext
    have hinside : inside.length < (Lexeme.ofHead c behind).rest.length :=
      length_lt_of_callOpening? hopening
    obtain ⟨closer, rfl⟩ := Scan.eq_of_splitAtTop hsplit
    simp only [List.length_append, List.length_cons] at hinside
    simp only [weight]
    omega
  | case6 position text start c behind htext lexeme stop t hname hread ih =>
    exact Nat.lt_of_le_of_lt ih (length_lt_of_lexeme htext)

/-- Every item that is taken makes a stream lighter. -/
theorem weight_of_takes {s last : TokenStream} {items : List Item} (h : s.Takes items last) :
    last.weight + items.length ≤ s.weight := by
  induction h with
  | nil => exact Nat.le_refl _
  | token _ ih | call _ ih =>
    simp only [weight, List.length_cons]
    omega

end TokenStream

namespace Expr

/-! ### Readers that agree -/

/-- Readers **agree** up to a weight when they answer the same for all streams that are not heavier.
-/
def AgreeUpTo (weight : Nat) (first second : Reader) : Prop :=
  ∀ s : TokenStream, s.weight ≤ weight → first s = second s

theorem bind_congr_of_ok {α β : Type} {outcome : Except Error α} {f g : α → Except Error β}
    (h : ∀ a, outcome = .ok a → f a = g a) : (outcome >>= f) = outcome >>= g := by
  cases outcome with
  | error => rfl
  | ok a => exact h a rfl

section Agreement

variable {grid : Grid} {n k : Nat} {r : Reader}

/-- What is taken for a phrase makes a stream lighter. -/
theorem weight_lt_of_sound {category : Category} {reader : Reader}
    (h : Sound grid false n category reader) {s last : TokenStream} {e : Expr}
    (hread : reader s = .ok (e, last)) : last.weight < s.weight := by
  obtain ⟨items, _, htakes, hnested, -⟩ := h hread
  have hweight := TokenStream.weight_of_takes htakes
  have hlength := List.length_pos_of_ne_nil (derives_ne_nil hnested.derives)
  omega

variable (h : AgreeUpTo k (operandAt grid false n) r)
include h

theorem operations_congr {s : TokenStream} (hs : s.weight ≤ k) :
    operations (operandAt grid false n) s = operations r s := by
  fun_induction operations (operandAt grid false n) s with
  | case1 op span rest error hread =>
    rw [operations, ← h rest (Nat.le_of_succ_le hs), hread]
  | case2 op span rest e behind hread hlt _ hrec ih
  | case3 op span rest e behind hread hlt _ _ hrec ih =>
    have hweight := weight_lt_of_sound (sound_operandAt grid false n) hread
    simp only [TokenStream.weight] at hs
    rw [operations, ← h rest (by omega), hread]
    simp only [if_pos hlt, ← ih (by omega), hrec]
  | case4 op span rest e behind hread hlt =>
    exact absurd (Nat.lt_succ_of_lt (advances_operandAt grid false n hread)) hlt
  | case5 s hother =>
    rw [operations]
    exact hother

theorem chain_congr : AgreeUpTo k (chain (operandAt grid false n)) (chain r) := by
  intro s hs
  simp only [chain, ← h s hs]
  refine bind_congr_of_ok fun read hread => ?_
  obtain ⟨first, behind⟩ := read
  have hweight := weight_lt_of_sound (sound_operandAt grid false n) hread
  simp only [operations_congr h (Nat.le_of_lt (Nat.lt_of_lt_of_le hweight hs))]

theorem elements_congr {s : TokenStream} (hs : s.weight ≤ k) :
    elements (chain (operandAt grid false n)) s = elements (chain r) s := by
  have hsound : Sound grid false n (.chain 1) (chain (operandAt grid false n)) :=
    sound_chain (sound_operandAt grid false n)
  fun_induction elements (chain (operandAt grid false n)) s with
  | case1 s error hread => rw [elements, ← chain_congr h s hs, hread]
  | case2 s e span rest hread hlt _ hrec ih
  | case3 s e span rest hread hlt _ _ hrec ih =>
    have hweight := weight_lt_of_sound hsound hread
    simp only [TokenStream.weight] at hweight
    rw [elements, ← chain_congr h s hs, hread]
    simp only [if_pos hlt, ← ih (by omega), hrec]
  | case4 s e span rest hread hlt =>
    exact absurd (Nat.lt_of_succ_lt (advances_chain (advances_operandAt grid false n) hread)) hlt
  | case5 s e behind hother hread =>
    exact (elements_of_ne ((chain_congr h s hs).symm.trans hread) hother).symm

theorem whole_congr {s : TokenStream} (hs : s.weight ≤ k) :
    whole (operandAt grid false n) s = whole r s := by
  rw [whole, whole, chain_congr h s hs]

/-- The leaves of argument text are shorter than any stream that has it. -/
theorem arguments_congr {text : List Char} (htext : text.length ≤ k) (opening : Nat) :
    arguments false (some (operandAt grid false n)) opening text =
      arguments false (some r) opening text := by
  simp only [arguments, ArgTree.ofText_eq_traverse]
  refine congrArg _ (ArgTree.traverse_congr fun leaf hleaf => ?_)
  obtain ⟨before, behind, htext', -⟩ := ArgTree.in_of_mem_outline text leaf hleaf
  have hlength := congrArg List.length htext'
  simp only [List.length_append] at hlength
  have hweight := TokenStream.weight_ofTextAt_le 0 leaf.text
  simp only [ArgTree.compilePiece, TokenStream.ofText,
    whole_congr h (s := .ofTextAt 0 leaf.text) (by omega)]

theorem members_congr {s : TokenStream} (hs : s.weight ≤ k) (e : Expr) :
    members false (some (operandAt grid false n)) e s = members false (some r) e s := by
  fun_induction members false (some (operandAt grid false n)) e s with
  | case1 e span name span' rest ih =>
    simp only [TokenStream.weight] at hs
    rw [members, ih (by omega)]
  | case2 e span name span' opening text rest ih =>
    simp only [TokenStream.weight] at hs
    rw [members, arguments_congr h (by omega)]
    exact bind_congr_of_ok fun inside _ => ih inside (by omega)
  | case3 => rfl
  | case4 | case5 | case6 =>
    rw [members]
    all_goals assumption

theorem unaryOperand_congr {s : TokenStream} (hs : s.weight ≤ k) (op : UnaryOp) (span : Span) :
    unaryOperand (some (operandAt grid false n)) op span s = unaryOperand (some r) op span s := by
  change operandAt grid false n s >>= _ = r s >>= _
  rw [h s hs]

theorem parenthesized_congr {s : TokenStream} (hs : s.weight ≤ k) (span : Span) :
    parenthesized (some (operandAt grid false n)) span s = parenthesized (some r) span s := by
  change chain (operandAt grid false n) s >>= _ = chain r s >>= _
  rw [chain_congr h s hs]

theorem bracketed_congr {s : TokenStream} (hs : s.weight ≤ k) (span : Span) :
    bracketed (some (operandAt grid false n)) span s = bracketed (some r) span s := by
  simp only [bracketed, nested, bind, Except.bind]
  split
  · rfl
  · rw [elements_congr h hs]

/-- Readers that agree on what is nested **agree** on operands, which are heavier. -/
theorem operand_congr :
    AgreeUpTo (k + 1) (operand grid false (some (operandAt grid false n)))
      (operand grid false (some r)) := by
  intro s hs
  have hdeeper : ∀ reader, some (operandAt grid false n) = some reader →
      ∃ m, n + 1 = m + 1 ∧ Sound grid false m .operand reader := by
    intro reader hreader
    cases hreader
    exact ⟨n, rfl, sound_operandAt grid false n⟩
  have hadvances : DeeperAdvances (some (operandAt grid false n)) := by
    intro reader hreader
    cases hreader
    exact advances_operandAt grid false n
  unfold operand
  split
  · exact unaryOperand_congr h (Nat.le_of_succ_le_succ hs) _ _
  · exact unaryOperand_congr h (Nat.le_of_succ_le_succ hs) _ _
  · exact members_congr h (Nat.le_of_succ_le_succ hs) _
  · exact members_congr h (Nat.le_of_succ_le_succ hs) _
  · exact members_congr h (Nat.le_of_succ_le_succ hs) _
  · exact members_congr h (Nat.le_of_succ_le_succ hs) _
  · refine bind_congr_of_ok fun _ _ => bind_congr_of_ok fun e _ => ?_
    exact members_congr h (Nat.le_of_succ_le_succ hs) e
  · next span rest =>
    have hrest : rest.weight ≤ k := Nat.le_of_succ_le_succ hs
    rw [← parenthesized_congr h hrest]
    refine bind_congr_of_ok fun read hread => ?_
    obtain ⟨e, last⟩ := read
    obtain ⟨items, _, htakes, -⟩ := exists_of_parenthesized hdeeper hread
    have hweight := TokenStream.weight_of_takes htakes
    exact members_congr h (by omega) e
  · next span rest =>
    have hrest : rest.weight ≤ k := Nat.le_of_succ_le_succ hs
    rw [← bracketed_congr h hrest]
    refine bind_congr_of_ok fun read hread => ?_
    obtain ⟨e, last⟩ := read
    obtain ⟨items, _, htakes, -⟩ := exists_of_bracketed hdeeper hadvances hread
    have hweight := TokenStream.weight_of_takes htakes
    exact members_congr h (by omega) e
  · simp only [TokenStream.weight] at hs
    rw [arguments_congr h (by omega)]
    exact bind_congr_of_ok fun inside _ => members_congr h (by omega) _
  · rfl
  · rfl

end Agreement

/-! ### The reader without a limit -/

section Unlimited

variable {grid : Grid} {n : Nat}

/-- A stream that weighs nothing has no operand, whatever reads it. -/
theorem operand_of_weight_eq_zero {s : TokenStream} (hs : s.weight = 0)
    (deeper deeper' : Option Reader) :
    operand grid false deeper s = operand grid false deeper' s := by
  cases s with
  | finish | broken => rfl
  | token | call | openCall => cases hs

/-- Levels of nesting that are as many as a stream is heavy are **enough**. -/
theorem agree_operandAt {k n m : Nat} (hn : k ≤ n) (hm : k ≤ m) :
    AgreeUpTo k (operandAt grid false n) (operandAt grid false m) := by
  induction k generalizing n m with
  | zero =>
    intro s hs
    rw [operandAt_eq, operandAt_eq]
    exact operand_of_weight_eq_zero (Nat.le_zero.1 hs) _ _
  | succ k ih =>
    obtain ⟨n, rfl⟩ := Nat.exists_eq_succ_of_ne_zero (Nat.ne_zero_of_lt hn)
    obtain ⟨m, rfl⟩ := Nat.exists_eq_succ_of_ne_zero (Nat.ne_zero_of_lt hm)
    exact operand_congr (ih (Nat.le_of_succ_le_succ hn) (Nat.le_of_succ_le_succ hm))

/-- One operand, with enough levels of nesting for its stream. -/
def unlimited (grid : Grid) : Reader := fun s => operandAt grid false s.weight s

theorem unlimited_eq_operandAt {s : TokenStream} (h : s.weight ≤ n) :
    unlimited grid s = operandAt grid false n s :=
  agree_operandAt (Nat.le_refl _) h s (Nat.le_refl _)

/-- The reader without a limit **reads what is nested by itself**. -/
theorem unlimited_eq (grid : Grid) :
    unlimited grid = operand grid false (some (unlimited grid)) := by
  funext s
  rw [unlimited_eq_operandAt (Nat.le_succ s.weight)]
  exact operand_congr (fun s' hs' => (unlimited_eq_operandAt hs').symm) s (Nat.le_succ _)

/-- It is the **only** reader that does. -/
theorem eq_unlimited {r : Reader} (hr : r = operand grid false (some r)) : r = unlimited grid := by
  have hagree : ∀ n, AgreeUpTo n (operandAt grid false n) r := by
    intro n
    induction n with
    | zero =>
      intro s hs
      rw [hr]
      exact operand_of_weight_eq_zero (Nat.le_zero.1 hs) _ _
    | succ n ih =>
      rw [hr]
      exact operand_congr ih
  funext s
  exact (hagree s.weight s (Nat.le_refl _)).symm

/-- Reads a text without templates, without a limit to the levels of nesting. -/
def readUnlimited (grid : Grid) (text : List Char) : Except Error Expr :=
  whole (unlimited grid) (.ofText text)

theorem readUnlimited_eq_readAt {text : List Char} (h : text.length ≤ n) :
    readUnlimited grid text = readAt grid false n text := by
  have hagree : AgreeUpTo n (operandAt grid false n) (unlimited grid) :=
    fun s hs => (unlimited_eq_operandAt hs).symm
  have hweight := TokenStream.weight_ofTextAt_le 0 text
  have hwhole := whole_congr hagree (s := .ofText text) (Nat.le_trans hweight h)
  rw [readUnlimited, ← hwhole, readAt]
  exact (bind_pure _).symm

/-- Without a limit a text is read exactly when the **grammar** reads it. -/
theorem readUnlimited_eq_ok_iff {text : List Char} {e : Expr} :
    readUnlimited grid text = .ok e ↔ IsFormula grid text e := by
  rw [← reads_iff_isFormula, readUnlimited_eq_readAt (Nat.le_max_left text.length e.nesting),
    readAt_eq_ok_iff]
  constructor
  · rintro ⟨r, hreads, -, rfl⟩
    rwa [settled_false]
  · intro hreads
    exact ⟨e, hreads, Nat.le_max_right .., (settled_false e).symm⟩

end Unlimited

end Expr

/-! ### Openers that stand too deep -/

/-- The **first** of some openers **beyond** so many levels: no other opener beyond them stands to
the left of it. -/
structure Opener.FirstBeyond (levels : Nat) (openers : List Opener) (opener : Opener) : Prop where
  /-- It is one of the openers. -/
  mem : opener ∈ openers
  /-- It stands too deep. -/
  levels_lt : levels < opener.level
  /-- Other openers that stand too deep follow it. -/
  leftmost : ∀ other ∈ openers, levels < other.level → opener.position ≤ other.position

theorem Listed.firstBeyond {text : List Char} {openers : List Opener} (h : Listed text openers)
    {levels : Nat} {opener : Opener}
    (hfind : (openers.find? fun opener => levels < opener.level) = some opener) :
    opener.FirstBeyond levels openers := by
  obtain ⟨hlevel, before, behind, rfl, hbefore⟩ := List.find?_eq_some_iff_append.1 hfind
  refine ⟨by simp, by simpa using hlevel, fun other hother hlt => ?_⟩
  have hbehind := (List.pairwise_append.1 h.pairwise).2.1
  rcases List.mem_append.1 hother with hmem | hmem
  · exact absurd hlt (by simpa using hbefore other hmem)
  · rcases List.mem_cons.1 hmem with rfl | hmem
    · exact Nat.le_refl _
    · exact Nat.le_of_lt ((List.pairwise_cons.1 hbehind).1 other hmem)

namespace Formula

variable {grid : Grid} {text : List Char} {e : Expr} {openers : List Opener}

theorem listed (h : Formula grid text e openers) : Listed text openers := by
  obtain ⟨body, blanks, rfl, -, hphrase⟩ := h
  exact hphrase.listed.append_text blanks

/-- The **nesting** of an expression is the level of the opener that stands deepest. -/
theorem nesting_le_iff (h : Formula grid text e openers) (hlength : byteLength text ≤ maxPosition)
    (n : Nat) : e.nesting ≤ n ↔ ∀ opener ∈ openers, opener.level ≤ n := by
  have hread := Expr.readAt_of_formula h hlength n
  have hreads : Reads grid text e := reads_iff_isFormula.2 ⟨openers, h⟩
  constructor
  · intro hnesting
    rw [Expr.readAt_eq_ok_iff.2 ⟨e, hreads, hnesting, (Expr.settled_false e).symm⟩] at hread
    unfold limited at hread
    split at hread
    · cases hread
    · next hnone => simpa using hnone
  · intro hlevels
    have hnone : (openers.find? fun opener => n < opener.level) = none := by simpa using hlevels
    rw [limited, hnone] at hread
    obtain ⟨r, hreads', hnesting, -⟩ := Expr.readAt_eq_ok_iff.1 hread
    rwa [Expr.reads_unique hreads hreads']

end Formula

namespace Expr

/-- **The limit refuses exactly what nests too deeply, at the first opener that does.** A text that
is read without a limit is compiled to the same expression when that does not nest deeper than the
levels that are left. Otherwise compiling fails at the leftmost opener that stands deeper. What is
refused without a limit is refused. -/
theorem compileAt_of_readUnlimited (env : Env) (depth : Nat) {text : List Char}
    (hlength : byteLength text ≤ maxPosition) :
    (∀ e, readUnlimited env.grid text = .ok e →
      IsFormula env.grid text e ∧ ∀ openers, Formula env.grid text e openers →
        (e.nesting ≤ nestingLimit - depth →
          compileAt env { optimize := false } depth text = .ok e) ∧
        (nestingLimit - depth < e.nesting → ∃ opener : Opener,
          opener.FirstBeyond (nestingLimit - depth) openers ∧ opener.In text ∧
          compileAt env { optimize := false } depth text =
            .error (Error.ofFault .nestingTooDeep ⟨opener.position, opener.position + 1⟩))) ∧
    ∀ error, readUnlimited env.grid text = .error error →
      ∃ error', compileAt env { optimize := false } depth text = .error error' := by
  have hcompile : compileAt env { optimize := false } depth text =
      readAt env.grid false (nestingLimit - depth) text := rfl
  rw [hcompile]
  refine ⟨fun e hread => ⟨readUnlimited_eq_ok_iff.1 hread, fun openers hformula => ?_⟩,
    fun error herror => ?_⟩
  · have hlimited := readAt_of_formula hformula hlength (nestingLimit - depth)
    have hnesting := hformula.nesting_le_iff hlength (nestingLimit - depth)
    rw [hlimited]
    unfold limited
    cases hfind : openers.find? fun opener => nestingLimit - depth < opener.level with
    | none =>
      have hle : e.nesting ≤ nestingLimit - depth := hnesting.2 (by simpa using hfind)
      exact ⟨fun _ => rfl, fun hlt => absurd hle (Nat.not_le_of_lt hlt)⟩
    | some opener =>
      have hfirst := hformula.listed.firstBeyond hfind
      have hlt : ¬ e.nesting ≤ nestingLimit - depth := fun hle =>
        absurd (hnesting.1 hle opener hfirst.mem) (Nat.not_le_of_lt hfirst.levels_lt)
      refine ⟨fun hle => absurd hle hlt, fun _ => ?_⟩
      refine ⟨opener, hfirst, hformula.listed.mem_in opener hfirst.mem, ?_⟩
      simp only [Opener.span, Nat.zero_add]
  · cases hread : readAt env.grid false (nestingLimit - depth) text with
    | error error' => exact ⟨error', rfl⟩
    | ok e =>
      obtain ⟨r, hreads, -, -⟩ := readAt_eq_ok_iff.1 hread
      rw [readUnlimited_eq_ok_iff.2 (reads_iff_isFormula.1 hreads)] at herror
      cases herror

/-- With one level left, `-(a)` fails at its parenthesis, inside the unary operator. -/
theorem compileAt_second_opener : ∃ openers, ∃ opener : Opener,
    Formula ⟨9, 9⟩ ['-', '(', 'a', ')'] (.unary .negate (.paren (.name "a"))) openers ∧
      opener.FirstBeyond 1 openers ∧ opener.position = 1 ∧
      compileAt ⟨⟨9, 9⟩, .empty⟩ { optimize := false } 63 ['-', '(', 'a', ')'] =
        .error (Error.ofFault .nestingTooDeep ⟨1, 2⟩) := by
  have hunlimited : readUnlimited ⟨9, 9⟩ ['-', '(', 'a', ')'] =
      .ok (.unary .negate (.paren (.name "a"))) := by
    cbv
  have hread : compileAt ⟨⟨9, 9⟩, .empty⟩ { optimize := false } 63 ['-', '(', 'a', ')'] =
      .error (Error.ofFault .nestingTooDeep ⟨1, 2⟩) := by
    cbv
  have hlength : byteLength ['-', '(', 'a', ')'] ≤ maxPosition := by decide
  obtain ⟨⟨openers, hformula⟩, hlimited⟩ :=
    (compileAt_of_readUnlimited ⟨⟨9, 9⟩, .empty⟩ 63 hlength).1 _ hunlimited
  obtain ⟨opener, hfirst, -, herror⟩ := (hlimited openers hformula).2 (by decide)
  rw [hread] at herror
  have hposition : opener.position = 1 := by
    simpa [Error.ofFault, eq_comm] using herror
  exact ⟨openers, opener, hformula, hfirst, hposition, hread⟩

end Expr

end GridFormula
