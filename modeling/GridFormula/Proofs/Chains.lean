import GridFormula.Expr.Chain
import GridFormula.Proofs.Spelling

/-!
# Chains and precedence

Reading takes a chain of operands first and joins them afterwards, one precedence after the other.
A grammar that is layered by precedence says the same in one step. This module turns each view into
the other, for any relation between items and expressions that is layered in this way.

## Main definitions

* `Expr.Tail`: the items of the operators of a chain with their operands.
* `Expr.Layered`: relations that are layered by precedence.
* `Expr.Joins`: a chain that joins to an expression by the operators of some precedences.

## Main results

* `Expr.Layered.assemble`: the expression of a chain is derived in the loosest layer.
* `Expr.Joins.binary`: joined chains with an operator between them are joined.
-/

namespace GridFormula.Expr

/-- The **tail** of a chain: items that are operators, each with items of an operand behind it. -/
inductive Tail (D : List Item → Expr → Prop) : List Item → Operations → Prop
  /-- The end of the chain. -/
  | nil : Tail D [] []
  /-- An operator with its operand. -/
  | cons {op : BinaryOp} {first second : List Item} {e : Expr} {others : Operations} :
      D first e → Tail D second others →
        Tail D (.token (.operator op) :: (first ++ second)) ((op, e) :: others)

namespace Tail

variable {D : List Item → Expr → Prop}

theorem append {first second : List Item} {others others' : Operations}
    (hfirst : Tail D first others) (hsecond : Tail D second others') :
    Tail D (first ++ second) (others ++ others') := by
  induction hfirst with
  | nil => exact hsecond
  | cons he _ ih =>
    rw [List.cons_append, List.append_assoc, List.cons_append]
    exact .cons he ih

end Tail

/-! ### From chains to layers -/

/-- A relation is **layered** by precedence: a layer holds the tighter ones, and a binary operator
between expressions of its own layer and the next one. -/
structure Layered (D : Nat → List Item → Expr → Prop) : Prop where
  /-- Tighter layers are part of looser ones. -/
  ofTighter : ∀ {p items e}, D (p + 1) items e → D p items e
  /-- An operator groups to the left. -/
  binary : ∀ {op : BinaryOp} {first second left right}, D op.precedence first left →
    D (op.precedence + 1) second right →
      D op.precedence (first ++ .token (.operator op) :: second) (.binary op left right)

namespace Layered

variable {D : Nat → List Item → Expr → Prop} (h : Layered D)
include h

/-- Joining the operators of one precedence goes one layer down. -/
theorem joinLevel {p : Nat} {head tail : List Item} {first : Expr} {others : Operations}
    (hhead : D p head first) (htail : Tail (D (p + 1)) tail others) :
    ∃ head' tail', head ++ tail = head' ++ tail' ∧ D p head' (joinLevel p first others).1 ∧
      Tail (D p) tail' (joinLevel p first others).2 := by
  fun_induction Expr.joinLevel p first others generalizing head tail with
  | case1 first =>
    cases htail
    exact ⟨head, [], rfl, hhead, .nil⟩
  | case2 first op operand others hop ih =>
    obtain @⟨⟩ | @⟨_, second, third, _, _, hoperand, hothers⟩ := htail
    subst hop
    obtain ⟨head', tail', htext, hhead', htail'⟩ := ih (h.binary hhead hoperand) hothers
    refine ⟨head', tail', ?_, hhead', htail'⟩
    rw [← htext, List.append_assoc, List.cons_append]
  | case3 first op operand others hop next others' hjoin ih =>
    obtain @⟨⟩ | @⟨_, second, third, _, _, hoperand, hothers⟩ := htail
    obtain ⟨head', tail', htext, hhead', htail'⟩ := ih (h.ofTighter hoperand) hothers
    rw [hjoin] at hhead' htail'
    rw [htext]
    exact ⟨head, _, rfl, hhead, .cons hhead' htail'⟩

/-- The expression of a chain is derived in the **loosest layer**. -/
theorem assemble {head tail : List Item} {first : Expr} {others : Operations}
    (hhead : D 7 head first) (htail : Tail (D 7) tail others) :
    D 1 (head ++ tail) (assemble first others) := by
  have hlevels : ∀ {n head tail first others}, D (n + 1) head first →
      Tail (D (n + 1)) tail others →
        ∃ head' tail', head ++ tail = head' ++ tail' ∧
          D 1 head' (joinLevels (List.range' 1 n).reverse first others).1 ∧
            Tail (D 1) tail' (joinLevels (List.range' 1 n).reverse first others).2 := by
    intro n
    induction n with
    | zero => exact fun hhead htail => ⟨_, _, rfl, hhead, htail⟩
    | succ n ih =>
      intro head tail first others hhead htail
      obtain ⟨head', tail', htext, hhead', htail'⟩ := h.joinLevel (h.ofTighter hhead) htail
      rw [htext, List.range'_concat, List.reverse_append, Nat.one_mul, Nat.add_comm 1 n]
      exact ih hhead' htail'
  obtain ⟨head', tail', htext, hhead', htail'⟩ := hlevels (n := 6) hhead htail
  have hnone := assemble_all first others
  have hsix : (List.range' 1 6).reverse = BinaryOp.precedences := rfl
  rw [hsix, hnone] at htail'
  cases htail'
  rw [htext, List.append_nil]
  exact hhead'

end Layered

/-! ### From layers to chains -/

theorem joinLevel_append {p : Nat} {op : BinaryOp} (hop : op.precedence ≠ p) (first next : Expr)
    (others more : Operations) :
    joinLevel p first (others ++ (op, next) :: more) =
      ((joinLevel p first others).1,
        (joinLevel p first others).2 ++ (op, (joinLevel p next more).1) ::
          (joinLevel p next more).2) := by
  fun_induction joinLevel p first others with
  | case1 first => rw [List.nil_append, joinLevel, if_neg hop]; rfl
  | case2 first op' operand others hop' ih => rw [List.cons_append, joinLevel, if_pos hop', ih]
  | case3 first op' operand others hop' next' others' hjoin ih =>
    rw [hjoin] at ih
    rw [List.cons_append, joinLevel, if_neg hop', ih]
    rfl

/-- An operator of a precedence that is not joined keeps the chains at its sides **apart**. -/
theorem joinLevels_append {precedences : List Nat} {op : BinaryOp}
    (hop : op.precedence ∉ precedences) (first next : Expr) (others more : Operations) :
    joinLevels precedences first (others ++ (op, next) :: more) =
      ((joinLevels precedences first others).1,
        (joinLevels precedences first others).2 ++ (op, (joinLevels precedences next more).1) ::
          (joinLevels precedences next more).2) := by
  induction precedences generalizing first next others more with
  | nil => rfl
  | cons p precedences ih =>
    rw [List.mem_cons, not_or] at hop
    have hcons : ∀ first others, joinLevels (p :: precedences) first others =
        joinLevels precedences (joinLevel p first others).1 (joinLevel p first others).2 :=
      fun _ _ => rfl
    rw [hcons, hcons, hcons, joinLevel_append hop.1]
    exact ih hop.2 _ _ _ _

/-- One more operator of the precedence that is joined goes around all of the chain. -/
theorem joinLevel_append_self {op : BinaryOp} {first left right : Expr} {others : Operations}
    (h : joinLevel op.precedence first others = (left, [])) :
    joinLevel op.precedence first (others ++ [(op, right)]) = (.binary op left right, []) := by
  induction others generalizing first with
  | nil =>
    cases h
    rw [List.nil_append, joinLevel, if_pos rfl, joinLevel]
  | cons other others ih =>
    obtain ⟨op', operand⟩ := other
    rw [joinLevel] at h
    rw [List.cons_append, joinLevel]
    split at h
    · next hop' =>
      rw [if_pos hop']
      exact ih h
    · cases h

/-- The precedences from the tightest down to `p`. -/
def precedencesFrom (p : Nat) : List Nat := BinaryOp.precedences.filter fun q => p ≤ q

theorem precedencesFrom_eq {p : Nat} (hp : p ∈ BinaryOp.precedences) :
    precedencesFrom p = precedencesFrom (p + 1) ++ [p] := by
  revert p
  decide

theorem not_mem_precedencesFrom_succ (p : Nat) : p ∉ precedencesFrom (p + 1) := by
  simp [precedencesFrom]

/-- A chain **joins** to an expression by its operators of precedence `p` and more. -/
def Joins (p : Nat) (first : Expr) (others : Operations) (e : Expr) : Prop :=
  joinLevels (precedencesFrom p) first others = (e, [])

namespace Joins

theorem joinLevels_concat (precedences : List Nat) (p : Nat) (first : Expr)
    (others : Operations) :
    joinLevels (precedences ++ [p]) first others =
      joinLevel p (joinLevels precedences first others).1 (joinLevels precedences first others).2 := by
  simp [joinLevels, List.foldl_append]

/-- A single operand is joined. -/
theorem single (e : Expr) : Joins 7 e [] e := rfl

theorem ofTighter {p : Nat} {first e : Expr} {others : Operations}
    (h : Joins (p + 1) first others e) : Joins p first others e := by
  unfold Joins at h ⊢
  by_cases hp : p ∈ BinaryOp.precedences
  · rw [precedencesFrom_eq hp, joinLevels_concat, h, joinLevel]
  · have hsame : precedencesFrom p = precedencesFrom (p + 1) := by
      refine List.filter_congr fun q hq => ?_
      have hne : p ≠ q := fun heq => hp (heq ▸ hq)
      exact decide_eq_decide.2 ⟨fun h => Nat.lt_of_le_of_ne h hne, Nat.le_of_succ_le⟩
    rwa [hsame]

/-- Joined chains with an operator between them **are joined**. -/
theorem binary {op : BinaryOp} {first next left right : Expr} {others more : Operations}
    (hleft : Joins op.precedence first others left)
    (hright : Joins (op.precedence + 1) next more right) :
    Joins op.precedence first (others ++ (op, next) :: more) (.binary op left right) := by
  unfold Joins at hleft hright ⊢
  rw [precedencesFrom_eq (BinaryOp.precedence_mem_precedences op), joinLevels_concat] at hleft ⊢
  rw [joinLevels_append (not_mem_precedencesFrom_succ _), hright]
  exact joinLevel_append_self hleft

/-- What a chain joins to by all its operators is its expression. -/
theorem assemble_eq {first e : Expr} {others : Operations} (h : Joins 1 first others e) :
    assemble first others = e :=
  congrArg Prod.fst h

end Joins

/-- A function that goes through binary operators goes through the expression of a chain. -/
theorem assemble_map {f : Expr → Expr}
    (hf : ∀ op left right, f (.binary op left right) = .binary op (f left) (f right))
    (first : Expr) (others : Operations) :
    assemble (f first) (others.map (Prod.map id f)) = f (assemble first others) := by
  have hlevel : ∀ p first others, joinLevel p (f first) (others.map (Prod.map id f)) =
      (f (joinLevel p first others).1, (joinLevel p first others).2.map (Prod.map id f)) := by
    intro p first others
    fun_induction joinLevel p first others with
    | case1 => rfl
    | case2 first op operand others hop ih =>
      rw [List.map_cons, Prod.map, id, joinLevel, if_pos hop, ← hf, ih]
    | case3 first op operand others hop next others' hjoin ih =>
      rw [hjoin] at ih
      rw [List.map_cons, Prod.map, id, joinLevel, if_neg hop, ih]
      rfl
  have hlevels : ∀ precedences first others,
      joinLevels precedences (f first) (others.map (Prod.map id f)) =
        (f (joinLevels precedences first others).1,
          (joinLevels precedences first others).2.map (Prod.map id f)) := by
    intro precedences
    induction precedences with
    | nil => exact fun _ _ => rfl
    | cons p precedences ih =>
      intro first others
      have hcons : ∀ first others, joinLevels (p :: precedences) first others =
          joinLevels precedences (joinLevel p first others).1 (joinLevel p first others).2 :=
        fun _ _ => rfl
      rw [hcons, hcons, hlevel, ih]
  rw [assemble, hlevels]
  rfl

end GridFormula.Expr
