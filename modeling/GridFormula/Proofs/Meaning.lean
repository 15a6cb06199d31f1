import GridFormula.Expr.Leaf
import GridFormula.Proofs.Folding

/-!
# Meaning

Folding is meant to change what an expression costs and not what it means. What names, fields,
cells, members and functions mean is not settled here: an interpretation says it, and evaluation
puts the meaning of an expression together from it, from left to right and up to the first error.
Nothing is asked of an interpretation, so what is shown for all of them holds for any evaluator that
is strict and works part by part.

A folding that was stopped leaves an expression that is folded up to where it was stopped. What was
replaced up to there was replaced by its value, and the operator that failed still stands, to fail
in the same way when it is evaluated.

## Main definitions

* `Interpretation`: what names, fields, cells, members and functions mean.
* `Expr.evaluate`: what an expression means.

## Main results

* `Expr.evaluate_optimize`: optimizing keeps the meaning of expressions, and of trees leaf by leaf.
* `Expr.exists_error_of_fold`: what cannot be folded to its end has no value.
-/

namespace GridFormula

/-- An **interpretation** of what depends on where a formula stands, with errors of any type. A
function is given the tree of what its arguments mean, also of those that fail. -/
structure Interpretation (ε : Type) where
  /-- The error for an operator that fails on its operands. -/
  failure : EvalError → ε
  /-- What a bare name means. -/
  name : String → Except ε Value
  /-- What a quoted name means. -/
  field : String → Except ε Value
  /-- What the current row means. -/
  currentRow : Except ε Value
  /-- What a cell means. -/
  cell : Cell → Except ε Value
  /-- What a member of a value means. -/
  member : Value → String → Except ε Value
  /-- What a call of a function means. -/
  call : String → ArgTree (Except ε Value) → Except ε Value
  /-- What a call of a member of a value means. -/
  memberCall : Value → String → ArgTree (Except ε Value) → Except ε Value

namespace Expr

variable {ε : Type}

mutual

/-- **What an expression means**: its parts are evaluated from left to right, and the first error
ends it. -/
def evaluate (I : Interpretation ε) : Expr → Except ε Value
  | .literal value => .ok value
  | .name n => I.name n
  | .field n => I.field n
  | .currentRow => I.currentRow
  | .cell c => I.cell c
  | .sequence items => do
    let values ← evaluateItems I items
    pure (.sequence values)
  | .paren inner => evaluate I inner
  | .call function arguments => I.call function (evaluateArguments I arguments)
  | .member target n => do
    let value ← evaluate I target
    I.member value n
  | .memberCall target n arguments => do
    let value ← evaluate I target
    I.memberCall value n (evaluateArguments I arguments)
  | .unary op operand => do
    let value ← evaluate I operand
    (op.apply value).mapError I.failure
  | .binary op left right => do
    let l ← evaluate I left
    let r ← evaluate I right
    (op.apply l r).mapError I.failure

/-- What a row of expressions means, item by item. -/
def evaluateItems (I : Interpretation ε) : List Expr → Except ε (List Value)
  | [] => pure []
  | item :: others => do
    let value ← evaluate I item
    let values ← evaluateItems I others
    pure (value :: values)

/-- What arguments mean, each on its own. -/
def evaluateArguments (I : Interpretation ε) : ArgTree Expr → ArgTree (Except ε Value)
  | .omitted => .omitted
  | .leaf e => .leaf (evaluate I e)
  | .group level slots => .group level (evaluateSlots I slots)

/-- What a row of argument slots means, each on its own. -/
def evaluateSlots (I : Interpretation ε) : List (ArgTree Expr) → List (ArgTree (Except ε Value))
  | [] => []
  | slot :: others => evaluateArguments I slot :: evaluateSlots I others

end

variable (I : Interpretation ε)

theorem evaluateArguments_eq_map (arguments : ArgTree Expr) :
    evaluateArguments I arguments = arguments.map (evaluate I) :=
  ArgTree.eq_map (evaluateSlots I) rfl (fun _ => rfl) (fun _ _ => rfl) rfl (fun _ _ => rfl)
    arguments

theorem evaluateItems_eq_mapM (items : List Expr) :
    evaluateItems I items = (items.map (evaluate I)).mapM id := by
  induction items with
  | nil => rfl
  | cons item others ih =>
    rw [evaluateItems, ih, List.map_cons, List.mapM_cons]
    rfl

/-! ### Constants -/

theorem eq_literal_of_constant? {e : Expr} {value : Value} (h : e.constant? = some value) :
    e = .literal value := by
  cases e with
  | literal _ => exact congrArg literal (Option.some.inj h)
  | _ => cases h

theorem evaluateItems_literals (values : List Value) :
    evaluateItems I (values.map literal) = .ok values := by
  induction values with
  | nil => rfl
  | cons value others ih =>
    rw [List.map_cons, evaluateItems, ih]
    rfl

/-- A result that takes the place of an operator is what the operator means; a failure takes no
place. -/
theorem evaluate_replaceBy {operation : Expr} {result : Except EvalError Value}
    (h : evaluate I operation = result.mapError I.failure) :
    evaluate I (replaceBy operation result).1 = evaluate I operation := by
  cases result with
  | error failure => rfl
  | ok value => exact h.symm

theorem evaluate_foldedUnary (op : UnaryOp) (operand : Expr) :
    evaluate I (foldedUnary op operand).1 = evaluate I (.unary op operand) := by
  unfold foldedUnary
  split
  · next value h =>
    obtain rfl := eq_literal_of_constant? h
    exact evaluate_replaceBy I rfl
  · rfl

theorem evaluate_foldedBinary (op : BinaryOp) (left right : Expr) :
    evaluate I (foldedBinary op left right).1 = evaluate I (.binary op left right) := by
  unfold foldedBinary
  split
  · next l r hleft hright =>
    obtain rfl := eq_literal_of_constant? hleft
    obtain rfl := eq_literal_of_constant? hright
    exact evaluate_replaceBy I rfl
  · rfl

theorem evaluate_foldedSequence (items : List Expr) :
    evaluate I (foldedSequence items) = evaluate I (.sequence items) := by
  rcases foldedSequence_cases items with ⟨values, rfl, hfolded⟩ | hfolded
  · rw [hfolded, evaluate, evaluate, evaluateItems_literals]
    rfl
  · rw [hfolded]

theorem evaluate_foldedParen (inner : Expr) :
    evaluate I (foldedParen inner) = evaluate I (.paren inner) := by
  rcases foldedParen_cases inner with ⟨value, rfl, hfolded⟩ | hfolded
  · rw [hfolded]
    rfl
  · rw [hfolded]

/-! ### Folding -/

variable {I}

/-- A row that is folded up to a failure means what it meant, if each of its items does. -/
theorem evaluateItems_foldItems {items : List Expr}
    (h : ∀ item ∈ items, evaluate I (fold item).1 = evaluate I item) :
    evaluateItems I (foldItems items).1 = evaluateItems I items := by
  rw [evaluateItems_eq_mapM, evaluateItems_eq_mapM, map_foldItems h]

theorem evaluateArguments_foldArguments {arguments : ArgTree Expr}
    (h : ∀ e ∈ arguments.expressions, evaluate I (fold e).1 = evaluate I e) :
    evaluateArguments I (foldArguments arguments) = evaluateArguments I arguments := by
  rw [evaluateArguments_eq_map, evaluateArguments_eq_map, foldArguments_eq_map, ArgTree.map_map]
  exact ArgTree.map_congr h

/-- A **folded** expression means what the expression did, also when the folding was stopped. -/
theorem evaluate_fold (e : Expr) : evaluate I (fold e).1 = evaluate I e := by
  induction e with
  | literal | name | field | currentRow | cell => rfl
  | sequence items ih =>
    have hitems := evaluateItems_foldItems ih
    rcases hfold : foldItems items with ⟨items', _ | failure⟩ <;> rw [hfold] at hitems
    · simp only [fold, hfold, evaluate_foldedSequence, evaluate, hitems]
    · simp only [fold, hfold, evaluate, hitems]
  | paren inner ih =>
    rcases hfold : fold inner with ⟨inner', _ | failure⟩ <;> rw [hfold] at ih
    · simp only [fold, hfold, evaluate_foldedParen, evaluate, ih]
    · simp only [fold, hfold, evaluate, ih]
  | call function arguments ih =>
    simp only [fold, evaluate, evaluateArguments_foldArguments ih]
  | member target n ih => simp only [fold, evaluate, ih]
  | memberCall target n arguments ih iharguments =>
    rcases hfold : fold target with ⟨target', _ | failure⟩ <;> rw [hfold] at ih
    · simp only [fold, hfold, evaluate, ih, evaluateArguments_foldArguments iharguments]
    · simp only [fold, hfold, evaluate, ih]
  | unary op operand ih =>
    rcases hfold : fold operand with ⟨operand', _ | failure⟩ <;> rw [hfold] at ih
    · simp only [fold, hfold, evaluate_foldedUnary, evaluate, ih]
    · simp only [fold, hfold, evaluate, ih]
  | binary op left right ihl ihr =>
    rcases hfold : fold left with ⟨left', _ | failure⟩ <;> rw [hfold] at ihl
    · rcases hfold' : fold right with ⟨right', _ | failure⟩ <;> rw [hfold'] at ihr
      · simp only [fold, hfold, hfold', evaluate_foldedBinary, evaluate, ihl, ihr]
      · simp only [fold, hfold, hfold', evaluate, ihl, ihr]
    · simp only [fold, hfold, evaluate, ihl]

/-- Optimizing keeps the **meaning** of every expression, and that of every tree leaf by leaf with
its slots as they are, whether or not a failure stopped it. -/
theorem evaluate_optimize (I : Interpretation ε) :
    (∀ e : Expr, evaluate I e.optimize.1 = evaluate I e) ∧
      ∀ tree : ArgTree Expr, tree.optimize.1.map (evaluate I) = tree.map (evaluate I) := by
  refine ⟨evaluate_fold, fun tree => ?_⟩
  rw [← foldArguments_eq, ← evaluateArguments_eq_map, ← evaluateArguments_eq_map]
  exact evaluateArguments_foldArguments fun e _ => evaluate_fold e

/-! ### Failures -/

/-- A row whose folding was stopped has no values. -/
theorem exists_error_of_foldItems {items : List Expr} {failure : EvalError}
    (hitems : ∀ item ∈ items, ∀ {failure}, (fold item).2 = some failure →
      ∃ error, evaluate I item = .error error)
    (h : (foldItems items).2 = some failure) : ∃ error, evaluateItems I items = .error error := by
  induction items with
  | nil => cases h
  | cons item others ih =>
    obtain ⟨hitem, hothers⟩ := List.forall_mem_cons.1 hitems
    rw [foldItems] at h
    rcases hfold : fold item with ⟨item', _ | failure'⟩ <;> rw [hfold] at h hitem
    · obtain ⟨error, herror⟩ := ih hothers h
      cases hvalue : evaluate I item with
      | error error' => exact ⟨error', by rw [evaluateItems, hvalue]; rfl⟩
      | ok value => exact ⟨error, by rw [evaluateItems, hvalue, herror]; rfl⟩
    · obtain ⟨error, herror⟩ := hitem rfl
      exact ⟨error, by rw [evaluateItems, herror]; rfl⟩

/-- An operator on literals that does not fold has no value. -/
theorem exists_error_of_replaceBy {operation : Expr} {result : Except EvalError Value}
    {failure : EvalError} (hoperation : evaluate I operation = result.mapError I.failure)
    (h : (replaceBy operation result).2 = some failure) :
    ∃ error, evaluate I operation = .error error := by
  cases result with
  | error failure' => exact ⟨_, hoperation⟩
  | ok value => cases h

theorem exists_error_of_foldedUnary {op : UnaryOp} {operand : Expr} {failure : EvalError}
    (h : (foldedUnary op operand).2 = some failure) :
    ∃ error, evaluate I (.unary op operand) = .error error := by
  unfold foldedUnary at h
  split at h
  · next value hoperand =>
    obtain rfl := eq_literal_of_constant? hoperand
    exact exists_error_of_replaceBy rfl h
  · cases h

theorem exists_error_of_foldedBinary {op : BinaryOp} {left right : Expr} {failure : EvalError}
    (h : (foldedBinary op left right).2 = some failure) :
    ∃ error, evaluate I (.binary op left right) = .error error := by
  unfold foldedBinary at h
  split at h
  · next l r hleft hright =>
    obtain rfl := eq_literal_of_constant? hleft
    obtain rfl := eq_literal_of_constant? hright
    exact exists_error_of_replaceBy rfl h
  · cases h

/-- An expression whose folding was stopped has **no value**, however it is interpreted. -/
theorem exists_error_of_fold {e : Expr} {failure : EvalError} (h : (fold e).2 = some failure) :
    ∃ error, evaluate I e = .error error := by
  induction e generalizing failure with
  | literal | name | field | currentRow | cell | call => cases h
  | sequence items ih =>
    rw [fold] at h
    rcases hfold : foldItems items with ⟨items', _ | failure'⟩ <;> rw [hfold] at h
    · cases h
    · obtain ⟨error, herror⟩ := exists_error_of_foldItems (fun item hitem => ih item hitem)
        (congrArg Prod.snd hfold)
      exact ⟨error, by rw [evaluate, herror]; rfl⟩
  | paren inner ih =>
    rw [fold] at h
    rcases hfold : fold inner with ⟨inner', _ | failure'⟩ <;> rw [hfold] at h ih
    · cases h
    · exact ih rfl
  | member target n ih =>
    obtain ⟨error, herror⟩ := ih h
    exact ⟨error, by rw [evaluate, herror]; rfl⟩
  | memberCall target n arguments ih _ =>
    rw [fold] at h
    rcases hfold : fold target with ⟨target', _ | failure'⟩ <;> rw [hfold] at h ih
    · cases h
    · obtain ⟨error, herror⟩ := ih rfl
      exact ⟨error, by rw [evaluate, herror]; rfl⟩
  | unary op operand ih =>
    have hmeaning := evaluate_fold (I := I) operand
    rw [fold] at h
    rcases hfold : fold operand with ⟨operand', _ | failure'⟩ <;> rw [hfold] at h ih hmeaning
    · obtain ⟨error, herror⟩ := exists_error_of_foldedUnary (I := I) h
      exact ⟨error, by rw [← herror, evaluate, evaluate, hmeaning]⟩
    · obtain ⟨error, herror⟩ := ih rfl
      exact ⟨error, by rw [evaluate, herror]; rfl⟩
  | binary op left right ihl ihr =>
    have hleft := evaluate_fold (I := I) left
    have hright := evaluate_fold (I := I) right
    rw [fold] at h
    rcases hfold : fold left with ⟨left', _ | failure'⟩ <;> rw [hfold] at h ihl hleft
    · rcases hfold' : fold right with ⟨right', _ | failure'⟩ <;> rw [hfold'] at h ihr hright
      · obtain ⟨error, herror⟩ := exists_error_of_foldedBinary (I := I) h
        exact ⟨error, by rw [← herror, evaluate, evaluate, hleft, hright]⟩
      · obtain ⟨error, herror⟩ := ihr rfl
        cases hvalue : evaluate I left with
        | error error' => exact ⟨error', by rw [evaluate, hvalue]; rfl⟩
        | ok value => exact ⟨error, by rw [evaluate, hvalue, herror]; rfl⟩
    · obtain ⟨error, herror⟩ := ihl rfl
      exact ⟨error, by rw [evaluate, herror]; rfl⟩

end Expr

end GridFormula
