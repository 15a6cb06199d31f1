import GridFormula.ArgTree.Leaves
import GridFormula.Expr.Nodes

/-!
# Induction over expressions

Expressions hold rows of expressions and trees of expressions. What is said of an expression by
induction is said of the items of a row, and of the expressions at the leaves of a tree.

## Main definitions

* `Expr.Everywhere`: a property of all nodes of an expression.
* `Expr.nesting`: how many levels of brackets, calls and unary operators an expression has.
* `Expr.within`: an expression with a function applied to the expressions in its arguments.

## Main results

* `Expr.induct`: the principle of induction.
-/

namespace GridFormula.Expr

/-- **Induction over expressions**: a property of sequences follows from that of their items, and
one of calls from that of the expressions in their arguments. -/
@[elab_as_elim, induction_eliminator]
theorem induct {motive : Expr → Prop} (literal : ∀ value, motive (.literal value))
    (name : ∀ n, motive (.name n)) (field : ∀ n, motive (.field n))
    (currentRow : motive .currentRow) (cell : ∀ c, motive (.cell c))
    (sequence : ∀ items, (∀ item ∈ items, motive item) → motive (.sequence items))
    (paren : ∀ inner, motive inner → motive (.paren inner))
    (call : ∀ function arguments, (∀ e ∈ arguments.expressions, motive e) →
      motive (.call function arguments))
    (member : ∀ target n, motive target → motive (.member target n))
    (memberCall : ∀ target n arguments, motive target →
      (∀ e ∈ arguments.expressions, motive e) → motive (.memberCall target n arguments))
    (unary : ∀ op operand, motive operand → motive (.unary op operand))
    (binary : ∀ op left right, motive left → motive right → motive (.binary op left right))
    (e : Expr) : motive e := by
  refine @Expr.rec motive (fun items => ∀ item ∈ items, motive item)
    (fun tree => ∀ e ∈ tree.expressions, motive e)
    (fun slots => ∀ slot ∈ slots, ∀ e ∈ slot.expressions, motive e)
    literal name field currentRow cell sequence paren call member memberCall unary binary
    ?_ ?_ ?_ ?_ ?_ ?_ ?_ e
  · exact fun item hitem => by cases hitem
  · intro item others hitem hothers
    simpa using ⟨hitem, hothers⟩
  · exact fun e he => by cases he
  · exact fun e he => by simpa using he
  · exact fun _ slots hslots => by simpa using fun e slot hslot => hslots slot hslot e
  · exact fun slot hslot => by cases hslot
  · intro slot others hslot hothers
    simpa using ⟨hslot, hothers⟩

/-! ### Nodes -/

theorem mem_itemsNodes {node : Expr} {items : List Expr} :
    node ∈ itemsNodes items ↔ ∃ item ∈ items, node ∈ item.nodes := by
  induction items with
  | nil => simp [itemsNodes]
  | cons item others ih => simp [itemsNodes, ih]

theorem mem_argumentsNodes {node : Expr} {arguments : ArgTree Expr} :
    node ∈ argumentsNodes arguments ↔ ∃ e ∈ arguments.expressions, node ∈ e.nodes := by
  induction arguments with
  | omitted => simp [argumentsNodes]
  | leaf e => simp [argumentsNodes]
  | group level slots ih =>
    rw [argumentsNodes]
    induction slots with
    | nil => simp [slotsNodes]
    | cons slot others ihslots =>
      rw [slotsNodes, List.mem_append, ih slot (by simp),
        ihslots fun slot hslot => ih slot (by simp [hslot])]
      simp only [ArgTree.expressions_group, List.flatMap_cons, List.mem_append]
      constructor
      · rintro (⟨e, he, hnode⟩ | ⟨e, he, hnode⟩)
        · exact ⟨e, .inl he, hnode⟩
        · exact ⟨e, .inr he, hnode⟩
      · rintro ⟨e, he | he, hnode⟩
        · exact .inl ⟨e, he, hnode⟩
        · exact .inr ⟨e, he, hnode⟩

/-- A property holds **everywhere** in an expression when all its nodes have it. -/
def Everywhere (P : Expr → Prop) (e : Expr) : Prop := ∀ node ∈ e.nodes, P node

section Everywhere

variable {P : Expr → Prop}

theorem forall_mem_itemsNodes {items : List Expr} :
    (∀ node ∈ itemsNodes items, P node) ↔ ∀ item ∈ items, item.Everywhere P := by
  simp only [Everywhere, mem_itemsNodes]
  exact ⟨fun h item hitem node hnode => h node ⟨item, hitem, hnode⟩,
    fun h node ⟨item, hitem, hnode⟩ => h item hitem node hnode⟩

theorem forall_mem_argumentsNodes {arguments : ArgTree Expr} :
    (∀ node ∈ argumentsNodes arguments, P node) ↔
      ∀ e ∈ arguments.expressions, e.Everywhere P := by
  simp only [Everywhere, mem_argumentsNodes]
  exact ⟨fun h e he node hnode => h node ⟨e, he, hnode⟩,
    fun h node ⟨e, he, hnode⟩ => h e he node hnode⟩

@[simp] theorem everywhere_literal {value : Value} :
    (literal value).Everywhere P ↔ P (.literal value) :=
  List.forall_mem_singleton

@[simp] theorem everywhere_name {n : String} : (name n).Everywhere P ↔ P (.name n) :=
  List.forall_mem_singleton

@[simp] theorem everywhere_field {n : String} : (field n).Everywhere P ↔ P (.field n) :=
  List.forall_mem_singleton

@[simp] theorem everywhere_currentRow : currentRow.Everywhere P ↔ P .currentRow :=
  List.forall_mem_singleton

@[simp] theorem everywhere_cell {c : Cell} : (cell c).Everywhere P ↔ P (.cell c) :=
  List.forall_mem_singleton

@[simp] theorem everywhere_sequence {items : List Expr} :
    (sequence items).Everywhere P ↔
      P (.sequence items) ∧ ∀ item ∈ items, item.Everywhere P := by
  rw [← forall_mem_itemsNodes]
  exact List.forall_mem_cons

@[simp] theorem everywhere_paren {inner : Expr} :
    (paren inner).Everywhere P ↔ P (.paren inner) ∧ inner.Everywhere P :=
  List.forall_mem_cons

@[simp] theorem everywhere_call {function : String} {arguments : ArgTree Expr} :
    (call function arguments).Everywhere P ↔
      P (.call function arguments) ∧ ∀ e ∈ arguments.expressions, e.Everywhere P := by
  rw [← forall_mem_argumentsNodes]
  exact List.forall_mem_cons

@[simp] theorem everywhere_member {target : Expr} {n : String} :
    (member target n).Everywhere P ↔ P (.member target n) ∧ target.Everywhere P :=
  List.forall_mem_cons

@[simp] theorem everywhere_memberCall {target : Expr} {n : String} {arguments : ArgTree Expr} :
    (memberCall target n arguments).Everywhere P ↔
      P (.memberCall target n arguments) ∧ target.Everywhere P ∧
        ∀ e ∈ arguments.expressions, e.Everywhere P := by
  rw [← forall_mem_argumentsNodes, Everywhere, Everywhere, ← List.forall_mem_append]
  exact List.forall_mem_cons

@[simp] theorem everywhere_unary {op : UnaryOp} {operand : Expr} :
    (unary op operand).Everywhere P ↔ P (.unary op operand) ∧ operand.Everywhere P :=
  List.forall_mem_cons

@[simp] theorem everywhere_binary {op : BinaryOp} {left right : Expr} :
    (binary op left right).Everywhere P ↔
      P (.binary op left right) ∧ left.Everywhere P ∧ right.Everywhere P := by
  rw [Everywhere, Everywhere, Everywhere, ← List.forall_mem_append]
  exact List.forall_mem_cons

/-- What holds everywhere holds at the top. -/
theorem Everywhere.self {e : Expr} (h : e.Everywhere P) : P e := by
  cases e <;> simp at h <;> first | exact h | exact h.1

end Everywhere

/-! ### Nesting -/

mutual

/-- The **nesting** of an expression: how many levels of parentheses, sequences, calls and unary
operators stand inside one another. -/
def nesting : Expr → Nat
  | .literal _ => 0
  | .name _ => 0
  | .field _ => 0
  | .currentRow => 0
  | .cell _ => 0
  | .sequence items => itemsNesting items + 1
  | .paren inner => inner.nesting + 1
  | .call _ arguments => argumentsNesting arguments + 1
  | .member target _ => target.nesting
  | .memberCall target _ arguments => max target.nesting (argumentsNesting arguments + 1)
  | .unary _ operand => operand.nesting + 1
  | .binary _ left right => max left.nesting right.nesting

/-- The nesting of a row of expressions. -/
def itemsNesting : List Expr → Nat
  | [] => 0
  | item :: others => max item.nesting (itemsNesting others)

/-- The nesting of the expressions in an argument tree. -/
def argumentsNesting : ArgTree Expr → Nat
  | .omitted => 0
  | .leaf e => e.nesting
  | .group _ slots => slotsNesting slots

/-- The nesting of the expressions in a row of slots. -/
def slotsNesting : List (ArgTree Expr) → Nat
  | [] => 0
  | slot :: others => max (argumentsNesting slot) (slotsNesting others)

end

theorem itemsNesting_le_iff {items : List Expr} {n : Nat} :
    itemsNesting items ≤ n ↔ ∀ item ∈ items, item.nesting ≤ n := by
  induction items with
  | nil => simp [itemsNesting]
  | cons item others ih => rw [itemsNesting, Nat.max_le, ih, List.forall_mem_cons]

theorem argumentsNesting_le_iff {arguments : ArgTree Expr} {n : Nat} :
    argumentsNesting arguments ≤ n ↔ ∀ e ∈ arguments.expressions, e.nesting ≤ n := by
  induction arguments with
  | omitted => simp [argumentsNesting]
  | leaf e => simp [argumentsNesting]
  | group level slots ih =>
    rw [argumentsNesting]
    induction slots with
    | nil => simp [slotsNesting]
    | cons slot others ihslots =>
      rw [slotsNesting, Nat.max_le, ih slot (by simp),
        ihslots fun slot hslot => ih slot (by simp [hslot])]
      simp only [ArgTree.expressions_group, List.flatMap_cons, List.mem_append]
      exact ⟨fun ⟨hslot, hothers⟩ e he => he.elim (hslot e) (hothers e),
        fun h => ⟨fun e he => h e (.inl he), fun e he => h e (.inr he)⟩⟩

/-! ### Arguments -/

mutual

/-- The expression with `finish` applied to every expression **within** the arguments of its calls,
from the inside out. -/
def within (finish : Expr → Expr) : Expr → Expr
  | .literal value => .literal value
  | .name n => .name n
  | .field n => .field n
  | .currentRow => .currentRow
  | .cell c => .cell c
  | .sequence items => .sequence (itemsWithin finish items)
  | .paren inner => .paren (inner.within finish)
  | .call function arguments => .call function (argumentsWithin finish arguments)
  | .member target n => .member (target.within finish) n
  | .memberCall target n arguments =>
    .memberCall (target.within finish) n (argumentsWithin finish arguments)
  | .unary op operand => .unary op (operand.within finish)
  | .binary op left right => .binary op (left.within finish) (right.within finish)

/-- A row of expressions with `finish` applied within their arguments. -/
def itemsWithin (finish : Expr → Expr) : List Expr → List Expr
  | [] => []
  | item :: others => item.within finish :: itemsWithin finish others

/-- Arguments with `finish` applied to every expression. -/
def argumentsWithin (finish : Expr → Expr) : ArgTree Expr → ArgTree Expr
  | .omitted => .omitted
  | .leaf e => .leaf (finish (e.within finish))
  | .group level slots => .group level (slotsWithin finish slots)

/-- A row of slots with `finish` applied to every expression. -/
def slotsWithin (finish : Expr → Expr) : List (ArgTree Expr) → List (ArgTree Expr)
  | [] => []
  | slot :: others => argumentsWithin finish slot :: slotsWithin finish others

end

theorem itemsWithin_eq_map (finish : Expr → Expr) (items : List Expr) :
    itemsWithin finish items = items.map (within finish) := by
  induction items with
  | nil => rfl
  | cons item others ih => rw [itemsWithin, ih, List.map_cons]

theorem argumentsWithin_eq_map (finish : Expr → Expr) (arguments : ArgTree Expr) :
    argumentsWithin finish arguments = arguments.map fun e => finish (e.within finish) :=
  ArgTree.eq_map (slotsWithin finish) rfl (fun _ => rfl) (fun _ _ => rfl) rfl
    (fun _ _ => rfl) arguments

/-- Where nothing is done in the arguments, the expression stays as it is. -/
theorem within_id (e : Expr) : e.within id = e := by
  have hmap : ∀ {arguments : ArgTree Expr}, (∀ e ∈ arguments.expressions, e.within id = e) →
      argumentsWithin id arguments = arguments := by
    intro arguments h
    rw [argumentsWithin_eq_map]
    exact ArgTree.map_eq_self h
  induction e with
  | literal | name | field | currentRow | cell => rfl
  | sequence items ih =>
    rw [within, itemsWithin_eq_map, List.map_congr_left ih, List.map_id']
  | paren inner ih => rw [within, ih]
  | call function arguments ih => rw [within, hmap ih]
  | member target n ih => rw [within, ih]
  | memberCall target n arguments ih iharguments => rw [within, ih, hmap iharguments]
  | unary op operand ih => rw [within, ih]
  | binary op left right ihl ihr => rw [within, ihl, ihr]

end GridFormula.Expr
