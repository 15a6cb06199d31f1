import GridFormula.Proofs.Constants
import GridFormula.Proofs.Layers
import GridFormula.Proofs.Settling

/-!
# Optimizing

Optimizing an expression folds it as far as it can, and what it answers is kept: doing it again
changes nothing and stops at the same failure. A folding that is stopped leaves no literal behind,
because the operator that failed is still there. So the answer for one leaf can be read off the leaf
itself.

A tree is optimized leaf by leaf. No leaf is passed over because of what became of another one, so
every subtree is what it becomes when it is optimized alone, and the answer for the tree is the
answer for all leaves together.

## Main results

* `ArgTree.optimizeLeaf_eq`: what optimizing makes of one leaf.
* `ArgTree.optimize_optimize`: optimizing twice is optimizing once.
* `ArgTree.optimize_leafwise`: optimizing goes leaf by leaf and tells whether all are literals.
-/

namespace GridFormula

/-! ### Expressions -/

namespace Expr

/-- **Optimizing twice** is optimizing once, up to the failure that stops it. -/
theorem optimize_fst_optimize (e : Expr) : e.optimize.1.optimize = e.optimize := by
  simp only [optimize, fold_fold]

/-- What is compiled with folding is optimized already. -/
theorem optimize_of_compileAt {env : Env} {options : Options} {depth : Nat} {text : List Char}
    {e : Expr} (h : compileAt env { options with optimize := true } depth text = .ok e) :
    e.optimize.1 = e := by
  obtain ⟨r, -, rfl⟩ := compileAt_optimize_iff.1 h
  rw [settled_true, optimize, fold_fold]

end Expr

namespace ArgTree

/-! ### Trees -/

/-- Where optimizing a leaf twice is optimizing it once, so it is for a **tree** of such leaves. -/
theorem optimize_fst_optimize {ε κ : Type} [Leaf ε κ]
    (h : ∀ e : ε, optimizeLeaf (optimizeLeaf e).1 = optimizeLeaf e) (tree : ArgTree ε) :
    tree.optimize.1.optimize = tree.optimize := by
  have hfst : ∀ tree : ArgTree ε, tree.optimize.1 = tree.map fun e => (optimizeLeaf e).1 := by
    intro tree
    rw [optimize_fst]
    exact map_congr fun e _ => (optimizeLeaf_fst e).symm
  refine Prod.ext ?_ ?_
  · rw [hfst, hfst, map_map]
    simp only [h]
  · rw [optimize_snd, optimize_snd, hfst, expressions_map, List.all_map]
    simp only [Function.comp_def, h]

/-- A **leaf** is optimized as its expression is, and constant when that has become a literal: a
folding that is stopped leaves none. -/
theorem optimizeLeaf_eq (e : Expr) : optimizeLeaf e = (e.optimize.1, e.optimize.1.isConstant) := by
  have hleaf : Leaf.optimize e = (e.fold.1, e.fold.2.map .evaluation) := rfl
  rw [optimizeLeaf, hleaf]
  cases hstop : e.fold.2 with
  | none => rfl
  | some failure =>
    have hnot : e.fold.1.isConstant = false := by
      rw [Bool.eq_false_iff, Ne, Expr.isConstant_fold_iff, hstop]
      rintro ⟨-, hnone⟩
      cases hnone
    exact congrArg (Prod.mk e.fold.1) hnot.symm

/-- **Optimizing is idempotent.** Expressions and trees of them answer the same when they are
optimized again, the failure included, and stay as they are. What was compiled with folding stays as
it is when it is optimized. -/
theorem optimize_optimize :
    (∀ e : Expr, e.optimize.1.optimize = e.optimize) ∧
      (∀ tree : ArgTree Expr, tree.optimize.1.optimize = tree.optimize) ∧
      ∀ (env : Env) (options : Options) (depth : Nat) (text : List Char) (e : Expr),
        Expr.compileAt env { options with optimize := true } depth text = .ok e →
          e.optimize.1 = e := by
  refine ⟨Expr.optimize_fst_optimize, optimize_fst_optimize fun e => ?_,
    fun env options depth text e => Expr.optimize_of_compileAt⟩
  simp only [optimizeLeaf_eq, Expr.optimize_fst_optimize]

/-- In `("")&-""` the parentheses have gone when the minus sign fails on a text. It fails again when
what is left is optimized, and nothing more goes. -/
theorem optimize_of_stopped :
    Expr.compileAt ⟨⟨9, 9⟩, .empty⟩ { optimize := true } 0
        ['(', '"', '"', ')', '&', '-', '"', '"'] =
      .ok (.binary .concat (.literal (.text "")) (.unary .negate (.literal (.text "")))) ∧
    ∃ error, Expr.optimize
        (.binary .concat (.literal (.text "")) (.unary .negate (.literal (.text "")))) =
      (.binary .concat (.literal (.text "")) (.unary .negate (.literal (.text ""))), some error) := by
  have hcompile : Expr.compileAt ⟨⟨9, 9⟩, .empty⟩ { optimize := true } 0
      ['(', '"', '"', ')', '&', '-', '"', '"'] =
        .ok (.binary .concat (.literal (.text "")) (.unary .negate (.literal (.text "")))) := by cbv
  have hkept := optimize_optimize.2.2 ⟨⟨9, 9⟩, .empty⟩ {} 0 _ _ hcompile
  exact ⟨hcompile, _, Prod.ext hkept rfl⟩

/-- **Optimizing goes leaf by leaf.** Levels, slots and omitted arguments stay, each leaf becomes
what optimizing makes of it alone, and so does every subtree. The answer is whether all leaves have
become literals. -/
theorem optimize_leafwise (tree : ArgTree Expr) :
    tree.optimize.1.shape = tree.shape ∧
      tree.optimize.1.leaves = tree.leaves.map (Option.map fun e => e.optimize.1) ∧
      (∀ path, tree.optimize.1.descend path =
        (tree.descend path).map fun part => part.optimize.1) ∧
      (tree.optimize.2 = true ↔
        ∀ e ∈ tree.optimize.1.expressions, ∃ value, e = .literal value) := by
  have hmap : ∀ tree : ArgTree Expr, tree.optimize.1 = tree.map fun e => e.optimize.1 :=
    optimize_fst
  simp only [hmap]
  refine ⟨?_, leaves_map _ tree, descend_map _ tree, ?_⟩
  · rw [shape, map_map, shape]
  · rw [optimize_snd, expressions_map, List.forall_mem_map, List.all_eq_true]
    simp only [optimizeLeaf_eq, Expr.isConstant_iff]

end ArgTree

end GridFormula
