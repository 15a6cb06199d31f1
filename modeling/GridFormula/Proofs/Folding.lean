import GridFormula.Proofs.Grammar

/-!
# Folding again

A folded expression that is written out and read back is not the expression that was written: a
literal is read as the syntax of its text, a negative number as a negation and a sequence as a row
of literals, and what stands in arguments is folded on its own before the rest. Folding once more
gives the folded expression again, together with the failure that had stopped the folding.

Folding twice is the simplest instance of this. Both are proved constructor by constructor, for any
way of reading back that goes through expressions and that folding undoes at literals.

## Main definitions

* `Expr.unfolded`: an expression with the syntax of its literals in place of them.
* `Expr.Rereads`: ways of reading back.
* `Expr.Refolds`: expressions that are the same after reading back and folding again.

## Main results

* `Expr.fold_fold`: folding twice is folding once.
* `Expr.settled_unfolded`: a settled expression that is unfolded settles as itself.
* `Expr.nesting_unfolded_le`: unfolding adds at most one level of nesting.
-/

namespace GridFormula

/-! ### Literals as they are read -/

mutual

/-- The expression that the literal of a value is read as. -/
def Value.unfolded : Value → Expr
  | .null => .literal .null
  | .bool b => .literal (.bool b)
  | .number (.signed true m) => .unary .negate (.literal (.number (.signed false m)))
  | .number n => .literal (.number n)
  | .text s => .literal (.text s)
  | .sequence items => .sequence (Value.allUnfolded items)

/-- The expressions that the literals of a row of values are read as. -/
def Value.allUnfolded : List Value → List Expr
  | [] => []
  | item :: others => item.unfolded :: Value.allUnfolded others

end

theorem Value.allUnfolded_eq_map (items : List Value) :
    Value.allUnfolded items = items.map Value.unfolded := by
  induction items with
  | nil => rfl
  | cons item others ih => rw [Value.allUnfolded, ih, List.map_cons]

namespace Expr

mutual

/-- An expression with its literals **unfolded** into what their texts are read as. -/
def unfolded : Expr → Expr
  | .literal value => value.unfolded
  | .name n => .name n
  | .field n => .field n
  | .currentRow => .currentRow
  | .cell c => .cell c
  | .sequence items => .sequence (itemsUnfolded items)
  | .paren inner => .paren inner.unfolded
  | .call function arguments => .call function (argumentsUnfolded arguments)
  | .member target n => .member target.unfolded n
  | .memberCall target n arguments => .memberCall target.unfolded n (argumentsUnfolded arguments)
  | .unary op operand => .unary op operand.unfolded
  | .binary op left right => .binary op left.unfolded right.unfolded

/-- A row of expressions with their literals unfolded. -/
def itemsUnfolded : List Expr → List Expr
  | [] => []
  | item :: others => item.unfolded :: itemsUnfolded others

/-- Arguments with their literals unfolded. -/
def argumentsUnfolded : ArgTree Expr → ArgTree Expr
  | .omitted => .omitted
  | .leaf e => .leaf e.unfolded
  | .group level slots => .group level (slotsUnfolded slots)

/-- A row of slots with their literals unfolded. -/
def slotsUnfolded : List (ArgTree Expr) → List (ArgTree Expr)
  | [] => []
  | slot :: others => argumentsUnfolded slot :: slotsUnfolded others

end

theorem itemsUnfolded_eq_map (items : List Expr) : itemsUnfolded items = items.map unfolded := by
  induction items with
  | nil => rfl
  | cons item others ih => rw [itemsUnfolded, ih, List.map_cons]

theorem argumentsUnfolded_eq_map (arguments : ArgTree Expr) :
    argumentsUnfolded arguments = arguments.map unfolded :=
  ArgTree.eq_map slotsUnfolded rfl (fun _ => rfl) (fun _ _ => rfl) rfl (fun _ _ => rfl) arguments

theorem foldArguments_eq_map (arguments : ArgTree Expr) :
    foldArguments arguments = arguments.map fun e => e.fold.1 :=
  ArgTree.eq_map foldSlots rfl (fun _ => rfl) (fun _ _ => rfl) rfl (fun _ _ => rfl) arguments

/-! ### What folding can make of an operator -/

theorem replaceBy_cases {unfolded : Expr} {result : Except EvalError Value}
    (hkind : ∀ value, result = .ok value → value.kind ≠ .sequence) :
    (∃ value, value.kind ≠ .sequence ∧ replaceBy unfolded result = (.literal value, none)) ∨
      (replaceBy unfolded result).1 = unfolded := by
  cases result with
  | error failure => exact .inr rfl
  | ok value => exact .inl ⟨value, hkind value rfl, rfl⟩

theorem kind_of_unary {op : UnaryOp} {operand value : Value} (h : op.apply operand = .ok value) :
    value.kind ≠ .sequence := by
  unfold UnaryOp.apply at h
  split at h <;> cases h <;> nofun

theorem kind_of_binary {op : BinaryOp} {left right value : Value}
    (h : op.apply left right = .ok value) : value.kind ≠ .sequence := by
  have hnumeric : ∀ {calculate}, op.applyNumeric calculate left right = .ok value →
      value.kind ≠ .sequence := by
    intro calculate h
    unfold BinaryOp.applyNumeric at h
    split at h
    · next x y _ =>
      cases hresult : calculate x y <;> rw [hresult] at h <;> cases h
      nofun
    · cases h
  have hordering : ∀ {accepts}, op.applyOrdering accepts left right = .ok value →
      value.kind ≠ .sequence := by
    intro accepts h
    unfold BinaryOp.applyOrdering at h
    split at h <;> cases h
    nofun
  have hlogical : ∀ {combine}, op.applyLogical combine left right = .ok value →
      value.kind ≠ .sequence := by
    intro combine h
    unfold BinaryOp.applyLogical at h
    split at h <;> cases h
    nofun
  cases op with
  | add | subtract | multiply | divide | modulo => exact hnumeric h
  | concat | equal | notEqual => cases h; nofun
  | less | lessEqual | greater | greaterEqual => exact hordering h
  | and | or => exact hlogical h

/-- An operator folds to a literal, which is no sequence, or it keeps its form. -/
theorem foldedUnary_cases (op : UnaryOp) (operand : Expr) :
    (∃ value, value.kind ≠ .sequence ∧ foldedUnary op operand = (.literal value, none)) ∨
      (foldedUnary op operand).1 = .unary op operand := by
  unfold foldedUnary
  split
  · exact replaceBy_cases fun value => kind_of_unary
  · exact .inr rfl

theorem foldedBinary_cases (op : BinaryOp) (left right : Expr) :
    (∃ value, value.kind ≠ .sequence ∧ foldedBinary op left right = (.literal value, none)) ∨
      (foldedBinary op left right).1 = .binary op left right := by
  unfold foldedBinary
  split
  · exact replaceBy_cases fun value => kind_of_binary
  · exact .inr rfl

theorem foldedSequence_cases (items : List Expr) :
    (∃ values, items = values.map literal ∧ foldedSequence items = .literal (.sequence values)) ∨
      foldedSequence items = .sequence items := by
  have hconstants : ∀ {items values}, constants? items = some values →
      items = values.map literal := by
    intro items
    induction items with
    | nil =>
      intro values h
      cases h
      rfl
    | cons item others ih =>
      intro values h
      rw [constants?] at h
      cases item with
      | literal value =>
        cases hothers : constants? others with
        | none => rw [hothers] at h; cases h
        | some values' =>
          rw [hothers] at h
          cases h
          rw [ih hothers]
          rfl
      | _ => cases h
  unfold foldedSequence
  split
  · next values h => exact .inl ⟨values, hconstants h, rfl⟩
  · exact .inr rfl

theorem foldedParen_cases (inner : Expr) :
    (∃ value, inner = .literal value ∧ foldedParen inner = .literal value) ∨
      foldedParen inner = .paren inner := by
  cases inner with
  | literal value => exact .inl ⟨value, rfl, rfl⟩
  | _ => exact .inr rfl

/-! ### Reading back -/

/-- A way of **reading back** goes through expressions, with `inner` for the expressions in
arguments, and makes something of a literal that folds to it. -/
structure Rereads (reread inner : Expr → Expr) : Prop where
  /-- A literal can be folded back. -/
  literal : ∀ value, fold (reread (.literal value)) = (.literal value, none)
  /-- A name stays as it is. -/
  name : ∀ n, reread (.name n) = .name n
  /-- A quoted name stays as it is. -/
  field : ∀ n, reread (.field n) = .field n
  /-- The current row stays as it is. -/
  currentRow : reread .currentRow = .currentRow
  /-- A cell stays as it is. -/
  cell : ∀ c, reread (.cell c) = .cell c
  /-- The items of a sequence are read back. -/
  sequence : ∀ items, reread (.sequence items) = .sequence (items.map reread)
  /-- What stands between parentheses is read back. -/
  paren : ∀ e, reread (.paren e) = .paren (reread e)
  /-- The arguments of a call are read back. -/
  call : ∀ n arguments, reread (.call n arguments) = .call n (arguments.map inner)
  /-- The target of a member is read back. -/
  member : ∀ target n, reread (.member target n) = .member (reread target) n
  /-- The target and the arguments of a call of a member are read back. -/
  memberCall : ∀ target n arguments, reread (.memberCall target n arguments) =
    .memberCall (reread target) n (arguments.map inner)
  /-- An operand is read back. -/
  unary : ∀ op e, reread (.unary op e) = .unary op (reread e)
  /-- Both operands are read back. -/
  binary : ∀ op left right, reread (.binary op left right) =
    .binary op (reread left) (reread right)

/-- An expression **refolds** when folding what its folded form is read back as gives that form, and
stops at the same failure. What lies behind such a failure is not folded, so the expression itself
has to be read back as it is. -/
structure Refolds (reread : Expr → Expr) (e : Expr) : Prop where
  /-- Folding gives the folded form again. -/
  fold_eq : fold (reread (fold e).1) = fold e
  /-- What is not folded is read back as it is. -/
  reread_eq : reread e = e

/-- Arguments **refold** when the folded forms of their expressions do, without regard to failures.
-/
def ArgumentsRefold (inner : Expr → Expr) (arguments : ArgTree Expr) : Prop :=
  ∀ e ∈ arguments.expressions, inner e = e ∧ (fold (inner (fold e).1)).1 = (fold e).1

section Refolds

variable {reread inner : Expr → Expr}

theorem ArgumentsRefold.map_eq {arguments : ArgTree Expr}
    (h : ArgumentsRefold inner arguments) : arguments.map inner = arguments :=
  ArgTree.map_eq_self fun e he => (h e he).1

theorem ArgumentsRefold.fold_eq {arguments : ArgTree Expr} (h : ArgumentsRefold inner arguments) :
    foldArguments ((foldArguments arguments).map inner) = foldArguments arguments := by
  simp only [foldArguments_eq_map, ArgTree.map_map]
  exact ArgTree.map_congr fun e he => (h e he).2

/-- A row of expressions that refold refolds. -/
theorem foldItems_refold {items : List Expr} (h : ∀ item ∈ items, Refolds reread item) :
    foldItems ((foldItems items).1.map reread) = foldItems items := by
  induction items with
  | nil => rfl
  | cons item others ih =>
    obtain ⟨hitem, hothers⟩ := List.forall_mem_cons.1 h
    have hsame : others.map reread = others := by
      rw [List.map_congr_left fun e he => (hothers e he).reread_eq, List.map_id']
    have hagain := hitem.fold_eq
    have hrest := ih hothers
    rcases hfold : fold item with ⟨item', _ | failure⟩
    · rw [hfold] at hagain
      rcases hfolds : foldItems others with ⟨others', failure⟩
      rw [hfolds] at hrest
      simp only [foldItems, hfold, hfolds, List.map_cons, hagain, hrest]
    · rw [hfold] at hagain
      simp only [foldItems, hfold, List.map_cons, hagain, hsame]

variable (hreads : Rereads reread inner)
include hreads

theorem refolds_sequence {items : List Expr} (h : ∀ item ∈ items, Refolds reread item) :
    Refolds reread (.sequence items) := by
  have hsame : items.map reread = items := by
    rw [List.map_congr_left fun e he => (h e he).reread_eq, List.map_id']
  refine ⟨?_, by rw [hreads.sequence, hsame]⟩
  have hagain := foldItems_refold h
  rcases hfold : foldItems items with ⟨items', _ | failure⟩
  · rw [hfold] at hagain
    simp only [fold, hfold]
    rcases foldedSequence_cases items' with ⟨values, rfl, hfolded⟩ | hfolded
    · rw [hfolded, hreads.literal]
    · rw [hfolded, hreads.sequence, fold, hagain]
      simp only [hfolded]
  · rw [hfold] at hagain
    simp only [fold, hfold, hreads.sequence, hagain]

theorem refolds_paren {e : Expr} (h : Refolds reread e) : Refolds reread (.paren e) := by
  refine ⟨?_, by rw [hreads.paren, h.reread_eq]⟩
  have hagain := h.fold_eq
  rcases hfold : fold e with ⟨e', _ | failure⟩
  · rw [hfold] at hagain
    simp only [fold, hfold]
    rcases foldedParen_cases e' with ⟨value, -, hfolded⟩ | hfolded
    · rw [hfolded, hreads.literal]
    · rw [hfolded, hreads.paren, fold, hagain]
      simp only [hfolded]
  · rw [hfold] at hagain
    simp only [fold, hfold, hreads.paren, hagain]

theorem refolds_call {n : String} {arguments : ArgTree Expr}
    (h : ArgumentsRefold inner arguments) : Refolds reread (.call n arguments) := by
  refine ⟨?_, by rw [hreads.call, h.map_eq]⟩
  simp only [fold, hreads.call, h.fold_eq]

theorem refolds_member {target : Expr} {n : String} (h : Refolds reread target) :
    Refolds reread (.member target n) := by
  refine ⟨?_, by rw [hreads.member, h.reread_eq]⟩
  simp only [fold, hreads.member, h.fold_eq]

theorem refolds_memberCall {target : Expr} {n : String} {arguments : ArgTree Expr}
    (h : Refolds reread target) (harguments : ArgumentsRefold inner arguments) :
    Refolds reread (.memberCall target n arguments) := by
  refine ⟨?_, by rw [hreads.memberCall, h.reread_eq, harguments.map_eq]⟩
  have hagain := h.fold_eq
  rcases hfold : fold target with ⟨target', _ | failure⟩
  · rw [hfold] at hagain
    simp only [fold, hfold, hreads.memberCall, hagain, harguments.fold_eq]
  · rw [hfold] at hagain
    simp only [fold, hfold, hreads.memberCall, hagain, harguments.map_eq]

theorem refolds_unary {op : UnaryOp} {e : Expr} (h : Refolds reread e) :
    Refolds reread (.unary op e) := by
  refine ⟨?_, by rw [hreads.unary, h.reread_eq]⟩
  have hagain := h.fold_eq
  rcases hfold : fold e with ⟨e', _ | failure⟩
  · rw [hfold] at hagain
    simp only [fold, hfold]
    rcases foldedUnary_cases op e' with ⟨value, -, hfolded⟩ | hfolded
    · rw [hfolded, hreads.literal]
    · rw [hfolded, hreads.unary, fold, hagain]
  · rw [hfold] at hagain
    simp only [fold, hfold, hreads.unary, hagain]

theorem refolds_binary {op : BinaryOp} {left right : Expr} (hleft : Refolds reread left)
    (hright : Refolds reread right) : Refolds reread (.binary op left right) := by
  refine ⟨?_, by rw [hreads.binary, hleft.reread_eq, hright.reread_eq]⟩
  have hagain := hleft.fold_eq
  rcases hfold : fold left with ⟨left', _ | failure⟩
  · rw [hfold] at hagain
    have hagain' := hright.fold_eq
    rcases hfold' : fold right with ⟨right', _ | failure⟩
    · rw [hfold'] at hagain'
      simp only [fold, hfold, hfold']
      rcases foldedBinary_cases op left' right' with ⟨value, -, hfolded⟩ | hfolded
      · rw [hfolded, hreads.literal]
      · rw [hfolded, hreads.binary, fold, hagain]
        simp only [hagain']
    · rw [hfold'] at hagain'
      simp only [fold, hfold, hfold', hreads.binary, hagain, hagain']
  · rw [hfold] at hagain
    simp only [fold, hfold, hreads.binary, hagain, hright.reread_eq]

end Refolds

/-! ### Folding twice -/

theorem rereads_id : Rereads id id where
  literal _ := rfl
  name _ := rfl
  field _ := rfl
  currentRow := rfl
  cell _ := rfl
  sequence items := by rw [List.map_id]; rfl
  paren _ := rfl
  call n arguments := by rw [show arguments.map id = arguments from ArgTree.map_id' _]; rfl
  member _ _ := rfl
  memberCall target n arguments := by
    rw [show arguments.map id = arguments from ArgTree.map_id' _]; rfl
  unary _ _ := rfl
  binary _ _ _ := rfl

/-- **Folding twice** is folding once, up to the failure that stops it. -/
theorem fold_fold (e : Expr) : fold (fold e).1 = fold e := by
  have harguments : ∀ {arguments : ArgTree Expr},
      (∀ e ∈ arguments.expressions, Refolds id e) → ArgumentsRefold id arguments :=
    fun h e he => ⟨rfl, congrArg Prod.fst (h e he).fold_eq⟩
  have hrefolds : Refolds id e := by
    induction e with
    | literal | name | field | currentRow | cell => exact ⟨rfl, rfl⟩
    | sequence items ih => exact refolds_sequence rereads_id ih
    | paren inner ih => exact refolds_paren rereads_id ih
    | call function arguments ih => exact refolds_call rereads_id (harguments ih)
    | member target n ih => exact refolds_member rereads_id ih
    | memberCall target n arguments ih iharguments =>
      exact refolds_memberCall rereads_id ih (harguments iharguments)
    | unary op operand ih => exact refolds_unary rereads_id ih
    | binary op left right ihl ihr => exact refolds_binary rereads_id ihl ihr
  exact hrefolds.fold_eq

/-! ### Unfolding -/

/-- The syntax of a literal folds to the literal. -/
theorem fold_unfolded (value : Value) : fold value.unfolded = (.literal value, none) := by
  induction value with
  | null | bool | text => rfl
  | number n =>
    cases n with
    | nan => rfl
    | signed negative m => cases negative <;> rfl
  | sequence items ih =>
    have hitems : foldItems (items.map Value.unfolded) = (items.map literal, none) := by
      induction items with
      | nil => rfl
      | cons item others ihothers =>
        rw [List.map_cons, foldItems, ih item (by simp),
          ihothers fun item hitem => ih item (by simp [hitem])]
        rfl
    have hconstants : constants? (items.map literal) = some items := by
      clear ih hitems
      induction items with
      | nil => rfl
      | cons item others ih =>
        rw [List.map_cons, constants?, ih]
        rfl
    rw [Value.unfolded, Value.allUnfolded_eq_map, fold, hitems]
    simp only [foldedSequence, hconstants]

/-- There are no calls in the syntax of a literal. -/
theorem within_unfolded (finish : Expr → Expr) (value : Value) :
    value.unfolded.within finish = value.unfolded := by
  induction value with
  | null | bool | text => rfl
  | number n =>
    cases n with
    | nan => rfl
    | signed negative m => cases negative <;> rfl
  | sequence items ih =>
    rw [Value.unfolded, Value.allUnfolded_eq_map, within, itemsWithin_eq_map, List.map_map]
    exact congrArg sequence (List.map_congr_left ih)

/-- An expression as it is read back, before the whole of it is folded. -/
def reread (e : Expr) : Expr := e.unfolded.within (finished true)

theorem rereads_reread : Rereads reread fun e => (fold (reread e)).1 where
  literal value := by rw [reread, unfolded, within_unfolded, fold_unfolded]
  name _ := rfl
  field _ := rfl
  currentRow := rfl
  cell _ := rfl
  sequence items := by
    rw [reread, unfolded, itemsUnfolded_eq_map, within, itemsWithin_eq_map, List.map_map]
    rfl
  paren _ := rfl
  call n arguments := by
    rw [reread, unfolded, argumentsUnfolded_eq_map, within, argumentsWithin_eq_map,
      ArgTree.map_map]
    rfl
  member _ _ := rfl
  memberCall target n arguments := by
    rw [reread, unfolded, argumentsUnfolded_eq_map, within, argumentsWithin_eq_map,
      ArgTree.map_map]
    rfl
  unary _ _ := rfl
  binary _ _ _ := rfl

/-- A node is **primitive** unless it is a literal that is read as something else. -/
def Primitive (e : Expr) : Prop := ∀ value, e = .literal value → value.unfolded = e

theorem unfolded_eq_self {r : Expr} (h : r.Everywhere Primitive) : r.unfolded = r := by
  have harguments : ∀ {arguments : ArgTree Expr}, (∀ e ∈ arguments.expressions, e.unfolded = e) →
      argumentsUnfolded arguments = arguments := by
    intro arguments h
    rw [argumentsUnfolded_eq_map]
    exact ArgTree.map_eq_self h
  induction r with
  | literal value => exact h.self value rfl
  | name | field | currentRow | cell => rfl
  | sequence items ih =>
    rw [everywhere_sequence] at h
    rw [unfolded, itemsUnfolded_eq_map, List.map_congr_left fun e he => ih e he (h.2 e he),
      List.map_id']
  | paren inner ih =>
    rw [everywhere_paren] at h
    rw [unfolded, ih h.2]
  | call function arguments ih =>
    rw [everywhere_call] at h
    rw [unfolded, harguments fun e he => ih e he (h.2 e he)]
  | member target n ih =>
    rw [everywhere_member] at h
    rw [unfolded, ih h.2]
  | memberCall target n arguments ih iharguments =>
    rw [everywhere_memberCall] at h
    rw [unfolded, ih h.2.1, harguments fun e he => iharguments e he (h.2.2 e he)]
  | unary op operand ih =>
    rw [everywhere_unary] at h
    rw [unfolded, ih h.2]
  | binary op left right ihl ihr =>
    rw [everywhere_binary] at h
    rw [unfolded, ihl h.2.1, ihr h.2.2]

/-- Behind its arguments a primitive expression refolds. -/
theorem refolds_within {r : Expr} (h : r.Everywhere Primitive) :
    Refolds reread (r.within (finished true)) := by
  have harguments : ∀ {arguments : ArgTree Expr},
      (∀ e ∈ arguments.expressions, Refolds reread (e.within (finished true))) →
        ArgumentsRefold (fun e => (fold (reread e)).1)
          (argumentsWithin (finished true) arguments) := by
    intro arguments h e he
    rw [argumentsWithin_eq_map, ArgTree.expressions_map] at he
    obtain ⟨a, ha, rfl⟩ := List.mem_map.1 he
    have hagain : (fold (reread (a.within (finished true)).fold.1)).1 =
        (a.within (finished true)).fold.1 := congrArg Prod.fst (h a ha).fold_eq
    refine ⟨hagain, ?_⟩
    simp only [finished, if_true] at hagain ⊢
    simp only [fold_fold, hagain]
  induction r with
  | literal value =>
    refine ⟨rereads_reread.literal value, ?_⟩
    have hself := h.self value rfl
    exact (congrArg (within (finished true)) hself).trans rfl
  | name | field | currentRow | cell => exact ⟨rfl, rfl⟩
  | sequence items ih =>
    rw [everywhere_sequence] at h
    rw [within, itemsWithin_eq_map]
    refine refolds_sequence rereads_reread fun item hitem => ?_
    obtain ⟨e, he, rfl⟩ := List.mem_map.1 hitem
    exact ih e he (h.2 e he)
  | paren inner ih =>
    rw [everywhere_paren] at h
    exact refolds_paren rereads_reread (ih h.2)
  | call function arguments ih =>
    rw [everywhere_call] at h
    exact refolds_call rereads_reread (harguments fun e he => ih e he (h.2 e he))
  | member target n ih =>
    rw [everywhere_member] at h
    exact refolds_member rereads_reread (ih h.2)
  | memberCall target n arguments ih iharguments =>
    rw [everywhere_memberCall] at h
    exact refolds_memberCall rereads_reread (ih h.2.1)
      (harguments fun e he => iharguments e he (h.2.2 e he))
  | unary op operand ih =>
    rw [everywhere_unary] at h
    exact refolds_unary rereads_reread (ih h.2)
  | binary op left right ihl ihr =>
    rw [everywhere_binary] at h
    exact refolds_binary rereads_reread (ihl h.2.1) (ihr h.2.2)

/-- A **settled** expression that is unfolded settles as itself. -/
theorem settled_unfolded {r : Expr} (h : r.Everywhere Primitive) (optimize : Bool) :
    (r.settled optimize).unfolded.settled optimize = r.settled optimize := by
  cases optimize with
  | false => simp only [settled_false, unfolded_eq_self h]
  | true => exact congrArg Prod.fst (refolds_within h).fold_eq

/-! ### Folded forms -/

/-- Every folded item is an item, or the folded form of one. -/
theorem exists_of_mem_foldItems {items : List Expr} {e : Expr} (h : e ∈ (foldItems items).1) :
    ∃ item ∈ items, e = item ∨ e = (fold item).1 := by
  induction items with
  | nil => cases h
  | cons item others ih =>
    rcases hfold : fold item with ⟨item', _ | failure⟩
    · rw [foldItems, hfold] at h
      rcases List.mem_cons.1 h with rfl | h
      · exact ⟨item, by simp, .inr (by rw [hfold])⟩
      · obtain ⟨item, hitem, he⟩ := ih h
        exact ⟨item, List.mem_cons_of_mem _ hitem, he⟩
    · rw [foldItems, hfold] at h
      rcases List.mem_cons.1 h with rfl | h
      · exact ⟨item, by simp, .inr (by rw [hfold])⟩
      · exact ⟨e, List.mem_cons_of_mem _ h, .inl rfl⟩

/-- A row that is folded up to a failure shows what it showed, if each of its items does. -/
theorem map_foldItems {α : Type} {f : Expr → α} {items : List Expr}
    (h : ∀ item ∈ items, f (fold item).1 = f item) : (foldItems items).1.map f = items.map f := by
  induction items with
  | nil => rfl
  | cons item others ih =>
    obtain ⟨hitem, hothers⟩ := List.forall_mem_cons.1 h
    rw [foldItems]
    rcases hfold : fold item with ⟨item', _ | failure⟩ <;> rw [hfold] at hitem
    · simp only [List.map_cons, hitem, ih hothers]
    · simp only [List.map_cons, hitem]

theorem fold_sequence_cases (items : List Expr) :
    (∃ values, (foldItems items).1 = values.map literal ∧
        (fold (.sequence items)).1 = .literal (.sequence values)) ∨
      (fold (.sequence items)).1 = .sequence (foldItems items).1 := by
  rcases hfold : foldItems items with ⟨items', _ | failure⟩
  · simp only [fold, hfold]
    exact foldedSequence_cases items'
  · exact .inr (by rw [fold, hfold])

theorem fold_paren_cases (e : Expr) :
    (∃ value, (fold e).1 = .literal value ∧ (fold (.paren e)).1 = .literal value) ∨
      (fold (.paren e)).1 = .paren (fold e).1 := by
  rcases hfold : fold e with ⟨e', _ | failure⟩
  · simp only [fold, hfold]
    exact foldedParen_cases e'
  · exact .inr (by rw [fold, hfold])

theorem fold_member (target : Expr) (n : String) :
    (fold (.member target n)).1 = .member (fold target).1 n := by
  rw [fold]

theorem fold_memberCall_cases (target : Expr) (n : String) (arguments : ArgTree Expr) :
    ∃ arguments', (arguments' = arguments ∨ arguments' = foldArguments arguments) ∧
      (fold (.memberCall target n arguments)).1 = .memberCall (fold target).1 n arguments' := by
  rcases hfold : fold target with ⟨target', _ | failure⟩
  · exact ⟨_, .inr rfl, by simp only [fold, hfold]⟩
  · exact ⟨_, .inl rfl, by simp only [fold, hfold]⟩

theorem fold_unary_cases (op : UnaryOp) (e : Expr) :
    (∃ value, value.kind ≠ .sequence ∧ (fold (.unary op e)).1 = .literal value) ∨
      (fold (.unary op e)).1 = .unary op (fold e).1 := by
  rcases hfold : fold e with ⟨e', _ | failure⟩
  · simp only [fold, hfold]
    rcases foldedUnary_cases op e' with ⟨value, hkind, hfolded⟩ | hfolded
    · exact .inl ⟨value, hkind, by rw [hfolded]⟩
    · exact .inr hfolded
  · exact .inr (by rw [fold, hfold])

theorem fold_binary_cases (op : BinaryOp) (left right : Expr) :
    (∃ value, value.kind ≠ .sequence ∧ (fold (.binary op left right)).1 = .literal value) ∨
      ∃ right', (right' = right ∨ right' = (fold right).1) ∧
        (fold (.binary op left right)).1 = .binary op (fold left).1 right' := by
  rcases hfold : fold left with ⟨left', _ | failure⟩
  · rcases hfold' : fold right with ⟨right', _ | failure⟩
    · simp only [fold, hfold, hfold']
      rcases foldedBinary_cases op left' right' with ⟨value, hkind, hfolded⟩ | hfolded
      · exact .inl ⟨value, hkind, by rw [hfolded]⟩
      · exact .inr ⟨right', .inr rfl, hfolded⟩
    · simp only [fold, hfold, hfold']
      exact .inr ⟨right', .inr rfl, rfl⟩
  · simp only [fold, hfold]
    exact .inr ⟨right, .inl rfl, rfl⟩

/-! ### Nesting -/

/-- The syntax of a literal that is no sequence has at most a sign. -/
theorem nesting_unfolded_of_kind {value : Value} (h : value.kind ≠ .sequence) :
    value.unfolded.nesting ≤ 1 := by
  cases value with
  | number n =>
    cases n with
    | nan => exact Nat.zero_le _
    | signed negative m => cases negative <;> simp [Value.unfolded, nesting]
  | sequence => exact absurd rfl h
  | _ => exact Nat.zero_le _

theorem unfolded_values (values : List Value) :
    (sequence (values.map literal)).unfolded = (literal (.sequence values)).unfolded := by
  rw [unfolded, unfolded, itemsUnfolded_eq_map, Value.unfolded, Value.allUnfolded_eq_map,
    List.map_map]
  rfl

/-- Unfolded, an expression **deepens** to at most `n` levels whether it is folded before or not. -/
structure Deepens (e : Expr) (n : Nat) : Prop where
  /-- The folded form unfolds to so many levels. -/
  fold_le : (fold e).1.unfolded.nesting ≤ n
  /-- The expression itself does. -/
  self_le : e.unfolded.nesting ≤ n

section Deepens

variable {n m : Nat}

theorem Deepens.mono {e : Expr} (h : Deepens e n) (hle : n ≤ m) : Deepens e m :=
  ⟨Nat.le_trans h.fold_le hle, Nat.le_trans h.self_le hle⟩

theorem nesting_unfolded_sequence_le {items : List Expr}
    (h : ∀ item ∈ items, item.unfolded.nesting ≤ n) :
    (sequence items).unfolded.nesting ≤ n + 1 := by
  simp only [unfolded, nesting, itemsUnfolded_eq_map]
  exact Nat.succ_le_succ (itemsNesting_le_iff.2 (List.forall_mem_map.2 h))

theorem deepens_sequence {items : List Expr} (h : ∀ item ∈ items, Deepens item n) :
    Deepens (.sequence items) (n + 1) := by
  have hfolded : ∀ item' ∈ (foldItems items).1, item'.unfolded.nesting ≤ n := by
    intro item' hitem'
    obtain ⟨item, hitem, rfl | rfl⟩ := exists_of_mem_foldItems hitem'
    · exact (h item' hitem).self_le
    · exact (h item hitem).fold_le
  refine ⟨?_, nesting_unfolded_sequence_le fun item hitem => (h item hitem).self_le⟩
  rcases fold_sequence_cases items with ⟨values, hvalues, heq⟩ | heq
  · -- a folded row unfolds as the row of its literals
    rw [heq, ← unfolded_values, ← hvalues]
    exact nesting_unfolded_sequence_le hfolded
  · rw [heq]
    exact nesting_unfolded_sequence_le hfolded

theorem deepens_paren {inner : Expr} (h : Deepens inner n) : Deepens (.paren inner) (n + 1) := by
  refine ⟨?_, Nat.succ_le_succ h.self_le⟩
  have hfold := h.fold_le
  rcases fold_paren_cases inner with ⟨value, hinner, heq⟩ | heq
  · rw [hinner] at hfold
    rw [heq]
    exact Nat.le_succ_of_le hfold
  · rw [heq]
    exact Nat.succ_le_succ hfold

theorem deepens_call {function : String} {arguments : ArgTree Expr}
    (hfolded : foldArguments arguments = arguments)
    (harguments : argumentsNesting (argumentsUnfolded arguments) ≤ n) :
    Deepens (.call function arguments) (n + 1) := by
  refine ⟨?_, Nat.succ_le_succ harguments⟩
  rw [fold, hfolded]
  exact Nat.succ_le_succ harguments

theorem deepens_member {target : Expr} {name : String} (h : Deepens target n) :
    Deepens (.member target name) n := by
  refine ⟨?_, h.self_le⟩
  rw [fold_member]
  exact h.fold_le

theorem deepens_memberCall {target : Expr} {name : String} {arguments : ArgTree Expr}
    (h : Deepens target n) (hfolded : foldArguments arguments = arguments)
    (harguments : argumentsNesting (argumentsUnfolded arguments) + 1 ≤ n) :
    Deepens (.memberCall target name arguments) n := by
  refine ⟨?_, Nat.max_le.2 ⟨h.self_le, harguments⟩⟩
  obtain ⟨arguments', harguments', heq⟩ := fold_memberCall_cases target name arguments
  rw [hfolded, or_self] at harguments'
  rw [heq, harguments']
  exact Nat.max_le.2 ⟨h.fold_le, harguments⟩

theorem deepens_unary {op : UnaryOp} {operand : Expr} (h : Deepens operand n) :
    Deepens (.unary op operand) (n + 1) := by
  refine ⟨?_, Nat.succ_le_succ h.self_le⟩
  rcases fold_unary_cases op operand with ⟨value, hkind, heq⟩ | heq
  · rw [heq]
    exact Nat.le_trans (nesting_unfolded_of_kind hkind) (Nat.le_add_left ..)
  · rw [heq]
    exact Nat.succ_le_succ h.fold_le

theorem deepens_binary {op : BinaryOp} {left right : Expr} (hpos : 1 ≤ n) (hleft : Deepens left n)
    (hright : Deepens right n) : Deepens (.binary op left right) n := by
  refine ⟨?_, Nat.max_le.2 ⟨hleft.self_le, hright.self_le⟩⟩
  rcases fold_binary_cases op left right with ⟨value, hkind, heq⟩ | ⟨right', hright', heq⟩
  · rw [heq]
    exact Nat.le_trans (nesting_unfolded_of_kind hkind) hpos
  · rw [heq]
    refine Nat.max_le.2 ⟨hleft.fold_le, ?_⟩
    rcases hright' with rfl | rfl
    · exact hright.self_le
    · exact hright.fold_le

end Deepens

/-- Arguments that are finished are folded already. -/
theorem foldArguments_within (arguments : ArgTree Expr) :
    foldArguments (argumentsWithin (finished true) arguments) =
      argumentsWithin (finished true) arguments := by
  simp only [foldArguments_eq_map, argumentsWithin_eq_map, ArgTree.map_map]
  refine ArgTree.map_congr fun e _ => ?_
  simp only [finished, if_true, fold_fold]

theorem argumentsNesting_unfolded_within_le {arguments : ArgTree Expr}
    (h : ∀ e ∈ arguments.expressions, Deepens (e.within (finished true)) (e.nesting + 1)) :
    argumentsNesting (argumentsUnfolded (argumentsWithin (finished true) arguments)) ≤
      argumentsNesting arguments + 1 := by
  rw [argumentsNesting_le_iff, argumentsUnfolded_eq_map, argumentsWithin_eq_map]
  simp only [ArgTree.expressions_map, List.forall_mem_map]
  intro e he
  have hle := argumentsNesting_le_iff.1 (Nat.le_refl (argumentsNesting arguments)) e he
  exact Nat.le_trans (h e he).fold_le (Nat.succ_le_succ hle)

theorem deepens_within {r : Expr} (h : r.Everywhere Primitive) :
    Deepens (r.within (finished true)) (r.nesting + 1) := by
  induction r with
  | literal value =>
    have hself : value.unfolded.nesting = 0 := by
      rw [h.self value rfl]
      rfl
    exact ⟨by simp [within, fold, unfolded, hself], by simp [within, unfolded, hself]⟩
  | name | field | currentRow | cell => exact ⟨Nat.zero_le _, Nat.zero_le _⟩
  | sequence items ih =>
    rw [everywhere_sequence] at h
    rw [within, itemsWithin_eq_map]
    refine deepens_sequence (List.forall_mem_map.2 fun item hitem => ?_)
    have hle := itemsNesting_le_iff.1 (Nat.le_refl (itemsNesting items)) item hitem
    exact (ih item hitem (h.2 item hitem)).mono (Nat.succ_le_succ hle)
  | paren inner ih =>
    rw [everywhere_paren] at h
    exact deepens_paren (ih h.2)
  | call function arguments ih =>
    rw [everywhere_call] at h
    exact deepens_call (foldArguments_within arguments)
      (argumentsNesting_unfolded_within_le fun e he => ih e he (h.2 e he))
  | member target n ih =>
    rw [everywhere_member] at h
    exact deepens_member (ih h.2)
  | memberCall target n arguments ih iharguments =>
    rw [everywhere_memberCall] at h
    have hle := argumentsNesting_unfolded_within_le fun e he => iharguments e he (h.2.2 e he)
    refine deepens_memberCall ((ih h.2.1).mono ?_) (foldArguments_within arguments) ?_
    · exact Nat.succ_le_succ (Nat.le_max_left ..)
    · exact Nat.succ_le_succ (Nat.le_trans hle (Nat.le_max_right ..))
  | unary op operand ih =>
    rw [everywhere_unary] at h
    exact deepens_unary (ih h.2)
  | binary op left right ihl ihr =>
    rw [everywhere_binary] at h
    refine deepens_binary (Nat.le_add_left ..) ((ihl h.2.1).mono ?_) ((ihr h.2.2).mono ?_)
    · exact Nat.succ_le_succ (Nat.le_max_left ..)
    · exact Nat.succ_le_succ (Nat.le_max_right ..)

/-- Unfolding a settled expression adds **at most one** level of nesting. -/
theorem nesting_unfolded_le {r : Expr} (h : r.Everywhere Primitive) (optimize : Bool) :
    (r.settled optimize).unfolded.nesting ≤ r.nesting + 1 := by
  cases optimize with
  | false =>
    rw [settled_false, unfolded_eq_self h]
    exact Nat.le_succ _
  | true => exact (deepens_within h).fold_le

end Expr

end GridFormula
