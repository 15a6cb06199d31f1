import GridFormula.Expr.Parse

/-!
# Readers advance

Every reader of expressions takes at least one item off its stream. The loops along a stream rely
on this: they test that the stream has become shorter before they go on, and the test never fails.

## Main definitions

* `Expr.Advances`: the readers that shorten their stream.

## Main results

* `Expr.advances_operandAt`: reading an operand shortens the stream, at any level of nesting.
* `Expr.operations_cons`, `Expr.elements_cons`: the loops without their test.
-/

namespace GridFormula.Expr

/-- A reader **advances** when what it leaves of a stream is shorter than the stream. -/
def Advances (reader : Reader) : Prop :=
  ∀ {s e last}, reader s = .ok (e, last) → last.size < s.size

/-! ### Loops -/

/-- Going on along a chain needs no test of progress. -/
theorem operations_cons {operand : Reader} (h : Advances operand) (op : BinaryOp) (span : Span)
    (rest : TokenStream) :
    operations operand (.token (.operator op) span rest) = (do
      let (e, behind) ← operand rest
      let (others, last) ← operations operand behind
      pure ((op, e) :: others, last)) := by
  rw [operations]
  cases heq : operand rest with
  | error => rfl
  | ok read =>
    obtain ⟨e, behind⟩ := read
    have hlt : behind.size < rest.size + 1 := Nat.lt_succ_of_lt (h heq)
    simp only [hlt, if_true, bind, Except.bind]
    cases operations operand behind <;> rfl

theorem size_le_of_operations {operand : Reader} (h : Advances operand) {s last : TokenStream}
    {others : Operations} (hread : operations operand s = .ok (others, last)) :
    last.size ≤ s.size := by
  fun_induction operations operand s generalizing others last with
  | case1 => cases hread
  | case2 => cases hread
  | case3 op span rest e behind hop hlt others' last' hrec ih =>
    cases hread
    have hsize := ih hrec
    have := h hop
    simp only [TokenStream.size]
    omega
  | case4 op span rest e behind hop hlt =>
    exact absurd (Nat.lt_succ_of_lt (h hop)) hlt
  | case5 =>
    cases hread
    exact Nat.le_refl _

theorem advances_chain {operand : Reader} (h : Advances operand) : Advances (chain operand) := by
  intro s e last hread
  unfold chain at hread
  cases hfirst : operand s with
  | error => rw [hfirst] at hread; cases hread
  | ok read =>
    obtain ⟨first, behind⟩ := read
    cases hothers : operations operand behind with
    | error => simp only [hfirst, hothers, bind, Except.bind, reduceCtorEq] at hread
    | ok read =>
      obtain ⟨others, last'⟩ := read
      simp only [hfirst, hothers, bind, Except.bind, pure, Except.pure, Except.ok.injEq,
        Prod.mk.injEq] at hread
      obtain ⟨-, rfl⟩ := hread
      exact Nat.lt_of_le_of_lt (size_le_of_operations h hothers) (h hfirst)

/-- Going on along a sequence needs no test of progress. -/
theorem elements_cons {element : Reader} (h : Advances element) {s rest : TokenStream} {e : Expr}
    {span : Span} (hread : element s = .ok (e, .token .comma span rest)) :
    elements element s = (do
      let (others, last) ← elements element rest
      pure (e :: others, last)) := by
  rw [elements, hread]
  have hlt : rest.size < s.size := Nat.lt_of_succ_lt (h hread)
  simp only [hlt, if_true, bind, Except.bind]
  cases elements element rest <;> rfl

/-- Without a comma behind it an expression is the last one of a sequence. -/
theorem elements_of_ne {element : Reader} {s behind : TokenStream} {e : Expr}
    (hread : element s = .ok (e, behind)) (hne : ∀ span rest, behind ≠ .token .comma span rest) :
    elements element s = .ok ([e], behind) := by
  rw [elements, hread]
  split
  · next heq => cases heq
  · next heq =>
    cases heq
    exact absurd rfl (hne _ _)
  · next heq =>
    cases heq
    rfl

theorem size_lt_of_elements {element : Reader} (h : Advances element) {s last : TokenStream}
    {items : List Expr} (hread : elements element s = .ok (items, last)) :
    last.size < s.size := by
  fun_induction elements element s generalizing items last with
  | case1 => cases hread
  | case2 => cases hread
  | case3 s e span rest helement hlt others last' hrec ih =>
    cases hread
    exact Nat.lt_trans (ih hrec) hlt
  | case4 s e span rest helement hlt =>
    exact absurd (Nat.lt_of_succ_lt (h helement)) hlt
  | case5 s e behind _ helement =>
    cases hread
    exact h helement

/-! ### Operands -/

theorem size_le_of_members {optimize : Bool} {deeper : Option Reader} {e e' : Expr}
    {s last : TokenStream} (hread : members optimize deeper e s = .ok (e', last)) :
    last.size ≤ s.size := by
  fun_induction members optimize deeper e s with
  | case1 e span n span' rest ih =>
    have := ih hread
    simp only [TokenStream.size]
    omega
  | case2 e span n span' opening text rest ih =>
    cases hinside : arguments optimize deeper opening text with
    | error => rw [hinside] at hread; cases hread
    | ok inside =>
      rw [hinside] at hread
      have := ih inside hread
      simp only [TokenStream.size]
      omega
  | case3 => cases hread
  | case4 e span t span' rest =>
    cases hrest : rest.intact with
    | error => rw [hrest] at hread; cases hread
    | ok => rw [hrest] at hread; cases hread
  | case5 => cases hread
  | case6 =>
    cases hread
    exact Nat.le_refl _

theorem size_lt_of_behindRoundClose {s last : TokenStream} (h : s.behindRoundClose = .ok last) :
    last.size < s.size := by
  unfold TokenStream.behindRoundClose at h
  split at h
  · cases h
    exact Nat.lt_succ_self _
  · cases h

theorem size_lt_of_behindSquareClose {s last : TokenStream} (h : s.behindSquareClose = .ok last) :
    last.size < s.size := by
  unfold TokenStream.behindSquareClose at h
  split at h
  · cases h
    exact Nat.lt_succ_self _
  · cases h

/-- Whatever reads what is nested advances. -/
def DeeperAdvances (deeper : Option Reader) : Prop :=
  ∀ operand, deeper = some operand → Advances operand

theorem of_nested {deeper : Option Reader} {span : Span} {operand : Reader}
    (h : nested deeper span = .ok operand) : deeper = some operand := by
  unfold nested at h
  split at h
  · cases h
  · cases h
    rfl

theorem advances_unaryOperand {deeper : Option Reader} (h : DeeperAdvances deeper) (op : UnaryOp)
    (span : Span) : Advances (unaryOperand deeper op span) := by
  intro s e last hread
  unfold unaryOperand at hread
  cases hnested : nested deeper span with
  | error => rw [hnested] at hread; cases hread
  | ok operand =>
    cases hinner : operand s with
    | error => simp only [hnested, hinner, bind, Except.bind, reduceCtorEq] at hread
    | ok read =>
      simp only [hnested, hinner, bind, Except.bind, pure, Except.pure, Except.ok.injEq,
        Prod.mk.injEq] at hread
      obtain ⟨-, rfl⟩ := hread
      exact h operand (of_nested hnested) hinner

theorem advances_parenthesized {deeper : Option Reader} (h : DeeperAdvances deeper)
    (span : Span) : Advances (parenthesized deeper span) := by
  intro s e last hread
  unfold parenthesized at hread
  cases hnested : nested deeper span with
  | error => rw [hnested] at hread; cases hread
  | ok operand =>
    cases hinner : chain operand s with
    | error => simp only [hnested, hinner, bind, Except.bind, reduceCtorEq] at hread
    | ok read =>
      obtain ⟨inner, behind⟩ := read
      cases hclose : behind.behindRoundClose with
      | error => simp only [hnested, hinner, hclose, bind, Except.bind, reduceCtorEq] at hread
      | ok last' =>
        simp only [hnested, hinner, hclose, bind, Except.bind, pure, Except.pure,
          Except.ok.injEq, Prod.mk.injEq] at hread
        obtain ⟨-, rfl⟩ := hread
        exact Nat.lt_trans (size_lt_of_behindRoundClose hclose)
          (advances_chain (h operand (of_nested hnested)) hinner)

theorem advances_bracketed {deeper : Option Reader} (h : DeeperAdvances deeper) (span : Span) :
    Advances (bracketed deeper span) := by
  intro s e last hread
  unfold bracketed at hread
  cases hnested : nested deeper span with
  | error => rw [hnested] at hread; cases hread
  | ok operand =>
    simp only [hnested, bind, Except.bind] at hread
    split at hread
    · cases hread
      exact Nat.lt_succ_self _
    · cases hinner : elements (chain operand) s with
      | error => simp only [hinner, reduceCtorEq] at hread
      | ok read =>
        obtain ⟨items, behind⟩ := read
        cases hclose : behind.behindSquareClose with
        | error => simp only [hinner, hclose, reduceCtorEq] at hread
        | ok last' =>
          simp only [hinner, hclose, pure, Except.pure, Except.ok.injEq, Prod.mk.injEq] at hread
          obtain ⟨-, rfl⟩ := hread
          exact Nat.lt_trans (size_lt_of_behindSquareClose hclose)
            (size_lt_of_elements (advances_chain (h operand (of_nested hnested))) hinner)

theorem advances_operand (grid : Grid) (optimize : Bool) {deeper : Option Reader}
    (h : DeeperAdvances deeper) : Advances (operand grid optimize deeper) := by
  intro s e last hread
  unfold operand at hread
  split at hread
  · exact Nat.lt_succ_of_lt (advances_unaryOperand h _ _ hread)
  · exact Nat.lt_succ_of_lt (advances_unaryOperand h _ _ hread)
  · exact Nat.lt_succ_of_le (size_le_of_members hread)
  · exact Nat.lt_succ_of_le (size_le_of_members hread)
  · exact Nat.lt_succ_of_le (size_le_of_members hread)
  · exact Nat.lt_succ_of_le (size_le_of_members hread)
  · next n span rest =>
    cases hintact : rest.intact with
    | error => rw [hintact] at hread; cases hread
    | ok =>
      cases hname : ofName grid n span with
      | error => simp only [hintact, hname, bind, Except.bind, reduceCtorEq] at hread
      | ok e' =>
        simp only [hintact, hname, bind, Except.bind] at hread
        exact Nat.lt_succ_of_le (size_le_of_members hread)
  · next span rest =>
    cases hinner : parenthesized deeper span rest with
    | error => rw [hinner] at hread; cases hread
    | ok read =>
      simp only [hinner, bind, Except.bind] at hread
      exact Nat.lt_succ_of_lt
        (Nat.lt_of_le_of_lt (size_le_of_members hread) (advances_parenthesized h _ hinner))
  · next span rest =>
    cases hinner : bracketed deeper span rest with
    | error => rw [hinner] at hread; cases hread
    | ok read =>
      simp only [hinner, bind, Except.bind] at hread
      exact Nat.lt_succ_of_lt
        (Nat.lt_of_le_of_lt (size_le_of_members hread) (advances_bracketed h _ hinner))
  · next n span opening text rest =>
    cases hinside : arguments optimize deeper opening text with
    | error => rw [hinside] at hread; cases hread
    | ok inside =>
      simp only [hinside, bind, Except.bind] at hread
      exact Nat.lt_succ_of_le (size_le_of_members hread)
  · cases hread
  · cases hread

/-- Reading an operand **shortens the stream**, at any level of nesting. -/
theorem advances_operandAt (grid : Grid) (optimize : Bool) (levels : Nat) :
    Advances (operandAt grid optimize levels) := by
  induction levels with
  | zero => exact advances_operand grid optimize (fun _ h => by cases h)
  | succ levels ih =>
    exact advances_operand grid optimize (fun _ h => by cases h; exact ih)

end GridFormula.Expr
