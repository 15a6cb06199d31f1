import GridFormula.Proofs.Gathering

/-!
# Parts of expressions

What stands right below a node of an expression, the expressions in the arguments of a call
included. The nodes of an expression are found from its parts, so what goes down to every part goes
down to every node.

## Main definitions

* `Expr.parts`: the expressions right below one.
* `Expr.arguments?`: the arguments of a call.

## Main results

* `Expr.nodes_eq_cons`: the nodes of an expression by those of its parts.
* `Expr.Everywhere.of_mem_nodes`, `Expr.nesting_le_of_mem_nodes`: what an expression has, its nodes
  have.
-/

namespace GridFormula.Expr

/-- The **parts** of an expression: those right below it, from left to right. -/
def parts : Expr → List Expr
  | .literal _ | .name _ | .field _ | .currentRow | .cell _ => []
  | .sequence items => items
  | .paren inner => [inner]
  | .call _ arguments => arguments.expressions
  | .member target _ => [target]
  | .memberCall target _ arguments => target :: arguments.expressions
  | .unary _ operand => [operand]
  | .binary _ left right => [left, right]

/-- The **arguments** of a call, also of one behind a dot. -/
def arguments? : Expr → Option (ArgTree Expr)
  | .call _ arguments | .memberCall _ _ arguments => some arguments
  | _ => none

/-- Induction over expressions by their parts, where the kinds of expressions do not matter. -/
theorem parts_induct {motive : Expr → Prop}
    (step : ∀ e : Expr, (∀ part ∈ e.parts, motive part) → motive e) (e : Expr) : motive e := by
  induction e with
  | literal | name | field | currentRow | cell => exact step _ nofun
  | sequence items ih => exact step _ ih
  | paren inner ih | unary op inner ih | member inner n ih =>
    exact step _ (List.forall_mem_singleton.2 ih)
  | call function arguments ih => exact step _ ih
  | memberCall target n arguments ih iharguments =>
    exact step _ (List.forall_mem_cons.2 ⟨ih, iharguments⟩)
  | binary op left right ihl ihr =>
    exact step _ (List.forall_mem_cons.2 ⟨ihl, List.forall_mem_singleton.2 ihr⟩)

/-! ### Nodes -/

/-- The nodes of an expression are the expression and the **nodes of its parts**. -/
theorem nodes_eq_cons (e : Expr) : e.nodes = e :: e.parts.flatMap nodes := by
  cases e with
  | literal | name | field | currentRow | cell => rfl
  | sequence items => rw [nodes, itemsNodes_eq_flatMap, parts]
  | paren | unary | member | binary => simp [nodes, parts]
  | call function arguments => rw [nodes, argumentsNodes_eq_flatMap, parts]
  | memberCall target n arguments =>
    rw [nodes, argumentsNodes_eq_flatMap, parts, List.flatMap_cons]

theorem mem_nodes_iff {node e : Expr} :
    node ∈ e.nodes ↔ node = e ∨ ∃ part ∈ e.parts, node ∈ part.nodes := by
  rw [nodes_eq_cons, List.mem_cons, List.mem_flatMap]

theorem mem_nodes_self (e : Expr) : e ∈ e.nodes := mem_nodes_iff.2 (.inl rfl)

/-- The nodes of a part are nodes of the expression. -/
theorem mem_nodes_of_part {node part e : Expr} (hpart : part ∈ e.parts) (h : node ∈ part.nodes) :
    node ∈ e.nodes :=
  mem_nodes_iff.2 (.inr ⟨part, hpart, h⟩)

/-- The nodes of a node are nodes of the expression. -/
theorem nodes_subset {node e : Expr} (h : node ∈ e.nodes) : node.nodes ⊆ e.nodes := by
  induction e using parts_induct with
  | step e ih =>
    obtain rfl | ⟨part, hpart, hnode⟩ := mem_nodes_iff.1 h
    · exact List.Subset.refl _
    · exact fun other hother => mem_nodes_of_part hpart (ih part hpart hnode hother)

theorem mem_nodes_of_mem_parts {part node e : Expr} (hpart : part ∈ node.parts)
    (hnode : node ∈ e.nodes) : part ∈ e.nodes :=
  nodes_subset hnode (mem_nodes_of_part hpart (mem_nodes_self part))

/-- The expressions in the arguments of a call are parts of it. -/
theorem mem_parts_of_arguments? {node e : Expr} {arguments : ArgTree Expr}
    (harguments : node.arguments? = some arguments) (he : e ∈ arguments.expressions) :
    e ∈ node.parts := by
  cases node <;> cases harguments
  case call => exact he
  case memberCall => exact List.mem_cons_of_mem _ he

/-- What holds everywhere in an expression holds everywhere in its nodes. -/
theorem Everywhere.of_mem_nodes {P : Expr → Prop} {node e : Expr} (h : e.Everywhere P)
    (hnode : node ∈ e.nodes) : node.Everywhere P :=
  fun other hother => h other (nodes_subset hnode hother)

/-! ### Nesting -/

theorem nesting_le_of_mem_parts {part e : Expr} (h : part ∈ e.parts) :
    part.nesting ≤ e.nesting := by
  cases e with
  | literal | name | field | currentRow | cell => cases h
  | sequence items => exact Nat.le_succ_of_le (itemsNesting_le_iff.1 le_rfl part h)
  | paren inner | unary op inner =>
    cases List.mem_singleton.1 h
    exact Nat.le_succ _
  | member target n =>
    cases List.mem_singleton.1 h
    exact le_rfl
  | call function arguments =>
    exact Nat.le_succ_of_le (argumentsNesting_le_iff.1 le_rfl part h)
  | memberCall target n arguments =>
    rw [nesting]
    obtain rfl | hargument := List.mem_cons.1 h
    · exact Nat.le_max_left _ _
    · exact le_max_of_le_right (Nat.le_succ_of_le (argumentsNesting_le_iff.1 le_rfl part hargument))
  | binary op left right =>
    rw [nesting]
    obtain rfl | hright := List.mem_cons.1 h
    · exact Nat.le_max_left _ _
    · cases List.mem_singleton.1 hright
      exact Nat.le_max_right _ _

/-- No node is nested **deeper** than the expression. -/
theorem nesting_le_of_mem_nodes {node e : Expr} (h : node ∈ e.nodes) : node.nesting ≤ e.nesting := by
  induction e using parts_induct with
  | step e ih =>
    obtain rfl | ⟨part, hpart, hnode⟩ := mem_nodes_iff.1 h
    · exact le_rfl
    · exact (ih part hpart hnode).trans (nesting_le_of_mem_parts hpart)

end GridFormula.Expr
