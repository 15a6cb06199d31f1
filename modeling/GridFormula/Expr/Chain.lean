import GridFormula.Expr.Basic

/-!
# Chains of operands

Without parentheses a formula is a chain: operands with binary operators between them. The chain
is made one expression by taking the precedences from the tightest to the loosest and joining, from
left to right, what stands around the operators of each.

## Main definitions

* `Expr.joinLevel`: the chain after the operators of one precedence have been joined.
* `Expr.assemble`: the expression of a chain.

## Main results

* `Expr.joinLevel_spec`: joining leaves exactly the operators of the other precedences.
* `Expr.assemble_all`: after all precedences no operator is left.
-/

namespace GridFormula.Expr

/-- The operators of a chain, each with the operand behind it. -/
abbrev Operations := List (BinaryOp × Expr)

/-- The chain that begins with `first`, with its operators of one precedence joined. -/
def joinLevel (precedence : Nat) (first : Expr) : Operations → Expr × Operations
  | [] => (first, [])
  | (op, operand) :: others =>
    if op.precedence = precedence then joinLevel precedence (.binary op first operand) others
    else
      let (next, others) := joinLevel precedence operand others
      (first, (op, next) :: others)

/-- The chain with its operators of several precedences joined, one precedence after the other. -/
def joinLevels (precedences : List Nat) (first : Expr) (others : Operations) :
    Expr × Operations :=
  precedences.foldl (fun (first, others) p => joinLevel p first others) (first, others)

/-- The **expression of a chain**. -/
def assemble (first : Expr) (others : Operations) : Expr :=
  (joinLevels BinaryOp.precedences first others).1

/-! ### What joining leaves -/

/-- Joining leaves exactly the operators of the other precedences, in their order. -/
theorem joinLevel_spec (precedence : Nat) (first : Expr) (others : Operations) :
    (joinLevel precedence first others).2.map Prod.fst =
      (others.map Prod.fst).filter fun op => op.precedence ≠ precedence := by
  fun_induction joinLevel precedence first others <;> simp_all

theorem joinLevels_spec (precedences : List Nat) (first : Expr) (others : Operations) :
    (joinLevels precedences first others).2.map Prod.fst =
      (others.map Prod.fst).filter fun op => op.precedence ∉ precedences := by
  induction precedences generalizing first others with
  | nil => simp [joinLevels, List.filter_eq_self.2]
  | cons p precedences ih =>
    have hstep : joinLevels (p :: precedences) first others =
        joinLevels precedences (joinLevel p first others).1 (joinLevel p first others).2 := rfl
    rw [hstep, ih, joinLevel_spec, List.filter_filter]
    congr 1
    funext op
    by_cases h : op.precedence = p <;> simp [h]

/-- After all precedences **no operator is left**. -/
theorem assemble_all (first : Expr) (others : Operations) :
    (joinLevels BinaryOp.precedences first others).2 = [] := by
  have h := joinLevels_spec BinaryOp.precedences first others
  have hnone : ((others.map Prod.fst).filter
      fun op => op.precedence ∉ BinaryOp.precedences) = [] := by
    simp [BinaryOp.precedence_mem_precedences]
  rw [hnone] at h
  exact List.map_eq_nil_iff.1 h

end GridFormula.Expr
