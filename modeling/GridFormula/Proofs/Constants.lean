import GridFormula.Proofs.Meaning

/-!
# Constants and failures

Folding makes a literal of an expression exactly when the expression has a value that does not
depend on where the formula stands: when nothing in it is looked up or called, and evaluating it
gives that value. It is stopped exactly when some operator fails on operands of that kind. Of
several such operators the first one counts, in the order in which operators are applied: those of
the operands come before the operator itself. Operators in the arguments of calls do not count,
because every argument is folded on its own.

## Main definitions

* `Expr.Static`: expressions that do not depend on where they stand.
* `Expr.operators`: the operators of an expression in the order in which they are applied.
* `Expr.Fails`: operators that fail on static operands.

## Main results

* `Expr.isConstant_fold_iff`: what folds to a literal.
* `Expr.firstFailure_fold`: what stops the folding.
* `Expr.optimize_iff`: both, as what optimizing answers.
-/

namespace GridFormula.Expr

variable {ε : Type}

/-! ### Static expressions -/

/-- Whether it depends on where a formula stands what a node means. -/
def isRuntime : Expr → Bool
  | .name _ | .field _ | .currentRow | .cell _ | .call .. | .member .. | .memberCall .. => true
  | .literal _ | .sequence _ | .paren _ | .unary .. | .binary .. => false

/-- An expression is **static** when none of its nodes depends on where the formula stands. -/
def Static (e : Expr) : Prop := e.Everywhere fun node => node.isRuntime = false

instance (e : Expr) : Decidable e.Static :=
  inferInstanceAs (Decidable (∀ node ∈ e.nodes, node.isRuntime = false))

/-- A node that depends on where the formula stands is not static, whatever is below it. -/
theorem not_static {e : Expr} (h : e.isRuntime = true) : ¬ e.Static := by
  intro hstatic
  have hself := hstatic.self
  rw [h] at hself
  cases hself

theorem static_literal (value : Value) : (literal value).Static := by
  simp [Static, isRuntime]

theorem static_sequence {items : List Expr} :
    (sequence items).Static ↔ ∀ item ∈ items, item.Static := by
  simp [Static, isRuntime]

theorem static_paren {inner : Expr} : (paren inner).Static ↔ inner.Static := by
  simp [Static, isRuntime]

theorem static_unary {op : UnaryOp} {operand : Expr} :
    (unary op operand).Static ↔ operand.Static := by
  simp [Static, isRuntime]

theorem static_binary {op : BinaryOp} {left right : Expr} :
    (binary op left right).Static ↔ left.Static ∧ right.Static := by
  simp [Static, isRuntime]

/-! ### What folds to a literal -/

theorem isConstant_iff {e : Expr} : e.isConstant = true ↔ ∃ value, e = .literal value := by
  cases e <;> simp [isConstant, constant?]

theorem isConstant_of_constant? {e : Expr} {value : Value} (h : e.constant? = some value) :
    e.isConstant = true := by
  rw [isConstant, h]
  rfl

theorem isConstant_foldedParen (inner : Expr) :
    (foldedParen inner).isConstant = inner.isConstant := by
  cases inner <;> rfl

theorem isConstant_foldedSequence {items : List Expr} :
    (foldedSequence items).isConstant = true ↔ ∀ item ∈ items, item.isConstant = true := by
  rcases foldedSequence_cases items with ⟨values, rfl, hfolded⟩ | hfolded
  · rw [hfolded]
    simp [isConstant, constant?]
  · rw [hfolded]
    refine ⟨fun h => (nomatch h), fun h => ?_⟩
    -- a row of literals has values, so it would have been made one literal
    have hvalues : ∃ values, constants? items = some values := by
      clear hfolded
      induction items with
      | nil => exact ⟨[], rfl⟩
      | cons item others ih =>
        obtain ⟨⟨value, rfl⟩, hothers⟩ := (List.forall_mem_cons.1 h).imp_left isConstant_iff.1
        obtain ⟨values, hvalues⟩ := ih hothers
        exact ⟨value :: values, by rw [constants?, hvalues]; rfl⟩
    obtain ⟨values, hvalues⟩ := hvalues
    rw [foldedSequence, hvalues] at hfolded
    cases hfolded

theorem isConstant_foldedUnary {op : UnaryOp} {operand : Expr} :
    (foldedUnary op operand).1.isConstant = true ↔
      operand.isConstant = true ∧ (foldedUnary op operand).2 = none := by
  unfold foldedUnary
  split
  · next value hvalue =>
    simp only [isConstant_of_constant? hvalue, true_and]
    cases op.apply value <;> simp [replaceBy, isConstant, constant?]
  · next hnone =>
    refine ⟨fun h => (nomatch h), fun ⟨h, _⟩ => ?_⟩
    rw [isConstant, hnone] at h
    cases h

theorem isConstant_foldedBinary {op : BinaryOp} {left right : Expr} :
    (foldedBinary op left right).1.isConstant = true ↔
      left.isConstant = true ∧ right.isConstant = true ∧
        (foldedBinary op left right).2 = none := by
  unfold foldedBinary
  split
  · next l r hleft hright =>
    simp only [isConstant_of_constant? hleft, isConstant_of_constant? hright, true_and]
    cases op.apply l r <;> simp [replaceBy, isConstant, constant?]
  · next hnone =>
    refine ⟨fun h => (nomatch h), fun ⟨hleft, hright, _⟩ => ?_⟩
    obtain ⟨l, rfl⟩ := isConstant_iff.1 hleft
    obtain ⟨r, rfl⟩ := isConstant_iff.1 hright
    exact absurd rfl (hnone l r rfl)

/-- A row that is folded to its end has each of its items folded to its end. -/
theorem foldItems_of_none {items : List Expr} (h : (foldItems items).2 = none) :
    (∀ item ∈ items, (fold item).2 = none) ∧
      (foldItems items).1 = items.map fun item => (fold item).1 := by
  induction items with
  | nil => exact ⟨nofun, rfl⟩
  | cons item others ih =>
    rw [foldItems] at h ⊢
    rcases hfold : fold item with ⟨item', _ | failure⟩ <;> rw [hfold] at h
    · obtain ⟨hnone, heq⟩ := ih h
      refine ⟨List.forall_mem_cons.2 ⟨by rw [hfold], hnone⟩, ?_⟩
      simp only [List.map_cons, hfold, heq]
    · cases h

/-- **What folds to a literal** is static and is folded to its end. -/
theorem isConstant_fold_iff {e : Expr} :
    (fold e).1.isConstant = true ↔ e.Static ∧ (fold e).2 = none := by
  induction e with
  | literal value => exact ⟨fun _ => ⟨static_literal value, rfl⟩, fun _ => rfl⟩
  | name | field | currentRow | cell | call =>
    exact ⟨fun h => (nomatch h), fun h => absurd h.1 (not_static rfl)⟩
  | member target n =>
    refine ⟨fun h => ?_, fun h => absurd h.1 (not_static rfl)⟩
    rw [fold_member] at h
    cases h
  | memberCall target n arguments =>
    refine ⟨fun h => ?_, fun h => absurd h.1 (not_static rfl)⟩
    obtain ⟨arguments', -, heq⟩ := fold_memberCall_cases target n arguments
    rw [heq] at h
    cases h
  | sequence items ih =>
    rw [static_sequence]
    rcases hfold : foldItems items with ⟨items', _ | failure⟩
    · obtain ⟨hnone, heq⟩ := foldItems_of_none (congrArg Prod.snd hfold)
      obtain rfl : items' = items.map fun item => (fold item).1 := by rw [← heq, hfold]
      simp only [fold, hfold, isConstant_foldedSequence, and_true, List.forall_mem_map]
      refine forall₂_congr fun item hitem => ?_
      rw [ih item hitem, hnone item hitem]
      simp
    · simp [fold, hfold, isConstant, constant?]
  | paren inner ih =>
    rw [static_paren]
    rcases hfold : fold inner with ⟨inner', _ | failure⟩ <;> rw [hfold] at ih
    · simpa [fold, hfold, isConstant_foldedParen] using ih
    · simp [fold, hfold, isConstant, constant?]
  | unary op operand ih =>
    rw [static_unary]
    rcases hfold : fold operand with ⟨operand', _ | failure⟩ <;> rw [hfold] at ih
    · simp only [fold, hfold, isConstant_foldedUnary, ih, and_true]
    · simp [fold, hfold, isConstant, constant?]
  | binary op left right ihl ihr =>
    rw [static_binary]
    rcases hfold : fold left with ⟨left', _ | failure⟩ <;> rw [hfold] at ihl
    · rcases hfold' : fold right with ⟨right', _ | failure⟩ <;> rw [hfold'] at ihr
      · simp only [fold, hfold, hfold', isConstant_foldedBinary, ihl, ihr, and_true, and_assoc]
      · simp [fold, hfold, hfold', isConstant, constant?]
    · simp [fold, hfold, isConstant, constant?]

variable {I : Interpretation ε}

/-- The literal that an expression folds to is its **value**, however the rest is interpreted. -/
theorem fold_eq_literal_iff {e : Expr} {value : Value} :
    (fold e).1 = .literal value ↔ e.Static ∧ evaluate I e = .ok value := by
  have hmeaning := evaluate_fold (I := I) e
  constructor
  · intro h
    have hconstant : (fold e).1.isConstant = true := by
      rw [h]
      rfl
    rw [h] at hmeaning
    exact ⟨(isConstant_fold_iff.1 hconstant).1, hmeaning.symm⟩
  · rintro ⟨hstatic, hvalue⟩
    have hnone : (fold e).2 = none := by
      rw [Option.eq_none_iff_forall_ne_some]
      intro failure hfailure
      obtain ⟨error, herror⟩ := exists_error_of_fold (I := I) hfailure
      rw [hvalue] at herror
      cases herror
    obtain ⟨value', hvalue'⟩ := isConstant_iff.1 (isConstant_fold_iff.2 ⟨hstatic, hnone⟩)
    rw [hvalue', hvalue] at hmeaning
    rw [hvalue', Except.ok.inj hmeaning]

/-! ### Operators that fail -/

mutual

/-- The **operators** of an expression with their operands, each behind those in its operands. Those
in the arguments of calls are left out. -/
def operators : Expr → List Expr
  | .literal _ | .name _ | .field _ | .currentRow | .cell _ | .call .. => []
  | .sequence items => itemsOperators items
  | .paren inner => inner.operators
  | .member target _ => target.operators
  | .memberCall target _ _ => target.operators
  | .unary op operand => operand.operators ++ [.unary op operand]
  | .binary op left right => left.operators ++ (right.operators ++ [.binary op left right])

/-- The operators of a row of expressions. -/
def itemsOperators : List Expr → List Expr
  | [] => []
  | item :: others => item.operators ++ itemsOperators others

end

/-- An operator **fails** when its operands are static and have values, and it has none for these.
-/
inductive Fails (I : Interpretation ε) : Expr → EvalError → Prop
  /-- A unary operator. -/
  | unary {op : UnaryOp} {operand : Expr} {value : Value} {failure : EvalError} :
      operand.Static → evaluate I operand = .ok value → op.apply value = .error failure →
        Fails I (.unary op operand) failure
  /-- A binary operator. -/
  | binary {op : BinaryOp} {left right : Expr} {l r : Value} {failure : EvalError} :
      left.Static → evaluate I left = .ok l → right.Static → evaluate I right = .ok r →
        op.apply l r = .error failure → Fails I (.binary op left right) failure

theorem replaceBy_snd_eq_some_iff {unfolded : Expr} {result : Except EvalError Value}
    {failure : EvalError} :
    (replaceBy unfolded result).2 = some failure ↔ result = .error failure := by
  cases result <;> simp [replaceBy]

/-- A unary operator fails exactly when it does not fold on its folded operand. -/
theorem fails_unary_iff {op : UnaryOp} {operand : Expr} {failure : EvalError} :
    Fails I (.unary op operand) failure ↔
      (foldedUnary op (fold operand).1).2 = some failure := by
  constructor
  · rintro ⟨hstatic, hvalue, happly⟩
    rw [fold_eq_literal_iff.2 ⟨hstatic, hvalue⟩]
    exact replaceBy_snd_eq_some_iff.2 happly
  · intro h
    unfold foldedUnary at h
    split at h
    · next value hconstant =>
      obtain ⟨hstatic, hvalue⟩ := fold_eq_literal_iff.1 (eq_literal_of_constant? hconstant)
      exact .unary hstatic hvalue (replaceBy_snd_eq_some_iff.1 h)
    · cases h

theorem fails_binary_iff {op : BinaryOp} {left right : Expr} {failure : EvalError} :
    Fails I (.binary op left right) failure ↔
      (foldedBinary op (fold left).1 (fold right).1).2 = some failure := by
  constructor
  · rintro (_ | ⟨hleft, hl, hright, hr, happly⟩)
    rw [fold_eq_literal_iff.2 ⟨hleft, hl⟩, fold_eq_literal_iff.2 ⟨hright, hr⟩]
    exact replaceBy_snd_eq_some_iff.2 happly
  · intro h
    unfold foldedBinary at h
    split at h
    · next l r hconstant hconstant' =>
      obtain ⟨hleft, hl⟩ := fold_eq_literal_iff.1 (eq_literal_of_constant? hconstant)
      obtain ⟨hright, hr⟩ := fold_eq_literal_iff.1 (eq_literal_of_constant? hconstant')
      exact .binary hleft hl hright hr (replaceBy_snd_eq_some_iff.1 h)
    · cases h

/-- An operator fails in one way. -/
theorem Fails.unique {node : Expr} {failure failure' : EvalError} (h : Fails I node failure)
    (h' : Fails I node failure') : failure = failure' := by
  cases h with
  | unary hstatic hvalue happly =>
    have hsame := fails_unary_iff.1 (.unary hstatic hvalue happly : Fails I _ _)
    exact Option.some.inj (hsame.symm.trans (fails_unary_iff.1 h'))
  | binary hleft hl hright hr happly =>
    have hsame := fails_binary_iff.1 (.binary hleft hl hright hr happly : Fails I _ _)
    exact Option.some.inj (hsame.symm.trans (fails_binary_iff.1 h'))

/-! ### The first failure -/

/-- The **first failure** in a row of operators, if any of them fails. -/
inductive FirstFailure (I : Interpretation ε) : List Expr → Option EvalError → Prop
  /-- Nothing fails where there are no operators. -/
  | nil : FirstFailure I [] none
  /-- An operator that fails is the first. -/
  | stop {node : Expr} {others : List Expr} {failure : EvalError} :
      Fails I node failure → FirstFailure I (node :: others) (some failure)
  /-- Behind one that does not fail the others decide. -/
  | pass {node : Expr} {others : List Expr} {outcome : Option EvalError} :
      (∀ failure, ¬ Fails I node failure) → FirstFailure I others outcome →
        FirstFailure I (node :: others) outcome

namespace FirstFailure

/-- A failure stays the first whatever comes behind. -/
theorem append_left {nodes : List Expr} {failure : EvalError}
    (h : FirstFailure I nodes (some failure)) (others : List Expr) :
    FirstFailure I (nodes ++ others) (some failure) := by
  generalize houtcome : some failure = outcome at h
  induction h with
  | nil => cases houtcome
  | stop hfails =>
    cases houtcome
    exact .stop hfails
  | pass hnode _ ih => exact .pass hnode (ih houtcome)

/-- Behind operators that do not fail the others decide. -/
theorem append_right {nodes others : List Expr} {outcome : Option EvalError}
    (h : FirstFailure I nodes none) (hothers : FirstFailure I others outcome) :
    FirstFailure I (nodes ++ others) outcome := by
  generalize hnone : none = outcome' at h
  induction h with
  | nil => exact hothers
  | stop => cases hnone
  | pass hnode _ ih => exact .pass hnode (ih hnone)

/-- A single operator decides when its failure is known. -/
theorem single {node : Expr} {outcome : Option EvalError}
    (h : ∀ failure, Fails I node failure ↔ outcome = some failure) :
    FirstFailure I [node] outcome := by
  cases outcome with
  | none => exact .pass (fun failure hfails => nomatch (h failure).1 hfails) .nil
  | some failure => exact .stop ((h failure).2 rfl)

theorem not_fails {nodes : List Expr} (h : FirstFailure I nodes none) :
    ∀ node ∈ nodes, ∀ failure, ¬ Fails I node failure := by
  generalize hnone : none = outcome at h
  induction h with
  | nil => exact nofun
  | stop => cases hnone
  | pass hnode _ ih => exact List.forall_mem_cons.2 ⟨hnode, ih hnone⟩

theorem exists_eq_append {nodes : List Expr} {failure : EvalError}
    (h : FirstFailure I nodes (some failure)) :
    ∃ before node behind, nodes = before ++ node :: behind ∧
      (∀ earlier ∈ before, ∀ failure, ¬ Fails I earlier failure) ∧ Fails I node failure := by
  generalize houtcome : some failure = outcome at h
  induction h with
  | nil => cases houtcome
  | stop hfails =>
    cases houtcome
    exact ⟨[], _, _, rfl, nofun, hfails⟩
  | @pass first _ _ hnode _ ih =>
    obtain ⟨before, node, behind, rfl, hbefore, hfails⟩ := ih houtcome
    exact ⟨first :: before, node, behind, rfl, List.forall_mem_cons.2 ⟨hnode, hbefore⟩, hfails⟩

/-- An operator that fails behind some that do not fail is the first. -/
theorem eq_some {before behind : List Expr} {node : Expr} {outcome : Option EvalError}
    {failure : EvalError} (h : FirstFailure I (before ++ node :: behind) outcome)
    (hbefore : ∀ earlier ∈ before, ∀ failure, ¬ Fails I earlier failure)
    (hfails : Fails I node failure) : outcome = some failure := by
  induction before with
  | nil =>
    cases h with
    | stop hfails' => rw [hfails'.unique hfails]
    | pass hnode => exact absurd hfails (hnode failure)
  | cons first others ih =>
    obtain ⟨hfirst, hothers⟩ := List.forall_mem_cons.1 hbefore
    cases h with
    | stop hfails' => exact absurd hfails' (hfirst _)
    | pass _ hrest => exact ih hrest hothers

end FirstFailure

/-- **What stops the folding** is the first operator that fails. -/
theorem firstFailure_fold (I : Interpretation ε) (e : Expr) :
    FirstFailure I e.operators (fold e).2 := by
  induction e with
  | literal | name | field | currentRow | cell | call => exact .nil
  | sequence items ih =>
    have hitems : FirstFailure I (itemsOperators items) (foldItems items).2 := by
      induction items with
      | nil => exact .nil
      | cons item others ihothers =>
        have hitem := ih item (by simp)
        have hothers := ihothers fun item hitem => ih item (by simp [hitem])
        rw [itemsOperators, foldItems]
        rcases hfold : fold item with ⟨item', _ | failure⟩ <;> rw [hfold] at hitem
        · exact hitem.append_right hothers
        · exact hitem.append_left _
    rcases hfold : foldItems items with ⟨items', _ | failure⟩ <;> rw [hfold] at hitems <;>
      simpa only [operators, fold, hfold] using hitems
  | paren inner ih =>
    rcases hfold : fold inner with ⟨inner', _ | failure⟩ <;> rw [hfold] at ih <;>
      simpa only [operators, fold, hfold] using ih
  | member target n ih => simpa only [operators, fold] using ih
  | memberCall target n arguments ih =>
    rcases hfold : fold target with ⟨target', _ | failure⟩ <;> rw [hfold] at ih <;>
      simpa only [operators, fold, hfold] using ih
  | unary op operand ih =>
    have hlast : FirstFailure I [.unary op operand] (foldedUnary op (fold operand).1).2 :=
      .single fun failure => fails_unary_iff
    rcases hfold : fold operand with ⟨operand', _ | failure⟩ <;> rw [hfold] at ih hlast
    · simpa only [operators, fold, hfold] using ih.append_right hlast
    · simpa only [operators, fold, hfold] using ih.append_left _
  | binary op left right ihl ihr =>
    have hlast : FirstFailure I [.binary op left right]
        (foldedBinary op (fold left).1 (fold right).1).2 :=
      .single fun failure => fails_binary_iff
    rcases hfold : fold left with ⟨left', _ | failure⟩ <;> rw [hfold] at ihl hlast
    · rcases hfold' : fold right with ⟨right', _ | failure⟩ <;> rw [hfold'] at ihr hlast
      · simpa only [operators, fold, hfold, hfold'] using
          ihl.append_right (ihr.append_right hlast)
      · simpa only [operators, fold, hfold, hfold'] using ihl.append_right (ihr.append_left _)
    · simpa only [operators, fold, hfold] using ihl.append_left _

/-! ### Optimizing -/

/-- **What optimizing answers.** It leaves a literal exactly when the expression is static and has
that value. It fails exactly when an operator outside the arguments of calls fails on static
operands, and then with the failure of the first that does. -/
theorem optimize_iff (I : Interpretation ε) (e : Expr) :
    (∀ value, e.optimize.1 = .literal value ↔ e.Static ∧ evaluate I e = .ok value) ∧
      ((∃ error, e.optimize.2 = some error) ↔
        ∃ node ∈ e.operators, ∃ failure, Fails I node failure) ∧
      ∀ error, e.optimize.2 = some error ↔
        ∃ before node behind failure, e.operators = before ++ node :: behind ∧
          (∀ earlier ∈ before, ∀ failure, ¬ Fails I earlier failure) ∧
          Fails I node failure ∧ error = .evaluation failure := by
  have hfirst := firstFailure_fold I e
  have hfailure : ∀ error, e.optimize.2 = some error ↔
      ∃ failure, (fold e).2 = some failure ∧ error = .evaluation failure := by
    intro error
    simp [optimize, eq_comm]
  refine ⟨fun value => fold_eq_literal_iff, ⟨?_, ?_⟩, fun error => ⟨fun h => ?_, ?_⟩⟩
  · rintro ⟨error, herror⟩
    obtain ⟨failure, hstop, -⟩ := (hfailure error).1 herror
    rw [hstop] at hfirst
    obtain ⟨before, node, behind, heq, -, hfails⟩ := hfirst.exists_eq_append
    exact ⟨node, by simp [heq], failure, hfails⟩
  · rintro ⟨node, hnode, failure, hfails⟩
    cases hstop : (fold e).2 with
    | none =>
      rw [hstop] at hfirst
      exact absurd hfails (hfirst.not_fails node hnode failure)
    | some failure' => exact ⟨_, (hfailure _).2 ⟨failure', hstop, rfl⟩⟩
  · obtain ⟨failure, hstop, rfl⟩ := (hfailure error).1 h
    rw [hstop] at hfirst
    obtain ⟨before, node, behind, heq, hbefore, hfails⟩ := hfirst.exists_eq_append
    exact ⟨before, node, behind, failure, heq, hbefore, hfails, rfl⟩
  · rintro ⟨before, node, behind, failure, heq, hbefore, hfails, rfl⟩
    rw [heq] at hfirst
    exact (hfailure _).2 ⟨failure, hfirst.eq_some hbefore hfails, rfl⟩

end GridFormula.Expr
