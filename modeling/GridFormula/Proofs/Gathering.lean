import GridFormula.Proofs.Meaning
import GridFormula.Proofs.Settling

/-!
# What folding keeps

Folding takes brackets and operators away whose operands are constants, and constants refer to
nothing. So whatever is gathered from an expression from left to right, with nothing added by
constants, brackets and operators, is the same before and after. This holds wherever folding is
stopped, and inside the arguments of calls, which are gathered in the same way.

What an expression depends on is gathered like this: the names, fields and cells among its nodes.

## Main definitions

* `Expr.Gathers`: lists that are gathered from an expression.
* `Expr.refers`: the nodes that stand for something by themselves.

## Main results

* `Expr.Gathers.fold`, `Expr.Gathers.settled`: folding keeps what is gathered.
* `ArgTree.dependencies_optimize`: folding keeps what a tree depends on.
-/

namespace GridFormula

namespace Expr

variable {α : Type}

/-! ### Gathering -/

/-- A list is **gathered** from an expression when constants have no part in it, brackets and
operators only join what their operands give, and a member or a call depends on its target and on
each argument only through what they give. -/
structure Gathers (view : Expr → List α) : Prop where
  /-- Nothing is gathered from a constant. -/
  literal : ∀ value, view (.literal value) = []
  /-- The items of a sequence are gathered from left to right. -/
  sequence : ∀ items, view (.sequence items) = items.flatMap view
  /-- Parentheses add nothing. -/
  paren : ∀ inner, view (.paren inner) = view inner
  /-- Nothing but what its arguments give counts in a call. -/
  call : ∀ {function : String} {arguments arguments' : ArgTree Expr},
    arguments.map view = arguments'.map view →
      view (.call function arguments) = view (.call function arguments')
  /-- Nothing but what its target gives counts in a member. -/
  member : ∀ {target target' : Expr} {n : String}, view target = view target' →
    view (.member target n) = view (.member target' n)
  /-- Nothing but what its target and its arguments give counts in a call of a member. -/
  memberCall : ∀ {target target' : Expr} {n : String} {arguments arguments' : ArgTree Expr},
    view target = view target' → arguments.map view = arguments'.map view →
      view (.memberCall target n arguments) = view (.memberCall target' n arguments')
  /-- Unary operators add nothing. -/
  unary : ∀ op operand, view (.unary op operand) = view operand
  /-- The operands of a binary operator are gathered from left to right. -/
  binary : ∀ op left right, view (.binary op left right) = view left ++ view right

namespace Gathers

variable {view : Expr → List α} (h : Gathers view)
include h

theorem flatMap_literals (values : List Value) : (values.map Expr.literal).flatMap view = [] := by
  simp [h.literal]

theorem constant {e : Expr} {value : Value} (he : e.constant? = some value) : view e = [] := by
  rw [eq_literal_of_constant? he, h.literal]

theorem foldedParen (inner : Expr) : view (foldedParen inner) = view inner := by
  rcases foldedParen_cases inner with ⟨value, rfl, hfolded⟩ | hfolded
  · rw [hfolded]
  · rw [hfolded, h.paren]

theorem foldedSequence (items : List Expr) : view (foldedSequence items) = items.flatMap view := by
  rcases foldedSequence_cases items with ⟨values, rfl, hfolded⟩ | hfolded
  · rw [hfolded, h.literal, h.flatMap_literals]
  · rw [hfolded, h.sequence]

/-- A result that takes the place of an operator on constants gives what the operator did: nothing.
-/
theorem replaceBy {operation : Expr} (hoperation : view operation = [])
    (result : Except EvalError Value) : view (replaceBy operation result).1 = view operation := by
  cases result with
  | error failure => rfl
  | ok value => rw [Expr.replaceBy, h.literal, hoperation]

theorem foldedUnary (op : UnaryOp) (operand : Expr) :
    view (foldedUnary op operand).1 = view operand := by
  unfold Expr.foldedUnary
  split
  · next value hvalue =>
    have hnone : view (.unary op operand) = [] := by rw [h.unary, h.constant hvalue]
    rw [h.replaceBy hnone, h.unary]
  · exact h.unary op operand

theorem foldedBinary (op : BinaryOp) (left right : Expr) :
    view (foldedBinary op left right).1 = view left ++ view right := by
  unfold Expr.foldedBinary
  split
  · next l r hleft hright =>
    have hnone : view (.binary op left right) = [] := by
      rw [h.binary, h.constant hleft, h.constant hright, List.append_nil]
    rw [h.replaceBy hnone, h.binary]
  · exact h.binary op left right

omit h in
/-- A row that is folded up to a failure gives what it gave, if each of its items does. -/
theorem foldItems {items : List Expr} (hitems : ∀ item ∈ items, view (fold item).1 = view item) :
    (foldItems items).1.flatMap view = items.flatMap view := by
  rw [List.flatMap_def, List.flatMap_def, map_foldItems hitems]

omit h in
theorem foldArguments {arguments : ArgTree Expr}
    (harguments : ∀ e ∈ arguments.expressions, view (fold e).1 = view e) :
    (foldArguments arguments).map view = arguments.map view := by
  rw [foldArguments_eq_map, ArgTree.map_map]
  exact ArgTree.map_congr harguments

/-- **Folding keeps what is gathered**, also when it is stopped. -/
theorem fold (e : Expr) : view (fold e).1 = view e := by
  induction e with
  | literal | name | field | currentRow | cell => rfl
  | sequence items ih =>
    have hitems := foldItems ih
    rcases hfold : Expr.foldItems items with ⟨items', _ | failure⟩ <;> rw [hfold] at hitems
    · simp only [Expr.fold, hfold, h.foldedSequence, h.sequence, hitems]
    · simp only [Expr.fold, hfold, h.sequence, hitems]
  | paren inner ih =>
    rcases hfold : Expr.fold inner with ⟨inner', _ | failure⟩ <;> rw [hfold] at ih
    · simp only [Expr.fold, hfold, h.foldedParen, h.paren, ih]
    · simp only [Expr.fold, hfold, h.paren, ih]
  | call function arguments ih => exact h.call (foldArguments ih)
  | member target n ih => exact h.member ih
  | memberCall target n arguments ih iharguments =>
    rcases hfold : Expr.fold target with ⟨target', _ | failure⟩ <;> rw [hfold] at ih
    · simp only [Expr.fold, hfold]
      exact h.memberCall ih (foldArguments iharguments)
    · simp only [Expr.fold, hfold]
      exact h.memberCall ih rfl
  | unary op operand ih =>
    rcases hfold : Expr.fold operand with ⟨operand', _ | failure⟩ <;> rw [hfold] at ih
    · simp only [Expr.fold, hfold, h.foldedUnary, h.unary, ih]
    · simp only [Expr.fold, hfold, h.unary, ih]
  | binary op left right ihl ihr =>
    rcases hfold : Expr.fold left with ⟨left', _ | failure⟩ <;> rw [hfold] at ihl
    · rcases hfold' : Expr.fold right with ⟨right', _ | failure⟩ <;> rw [hfold'] at ihr
      · simp only [Expr.fold, hfold, hfold', h.foldedBinary, h.binary, ihl, ihr]
      · simp only [Expr.fold, hfold, hfold', h.binary, ihl, ihr]
    · simp only [Expr.fold, hfold, h.binary, ihl]

/-- Completing keeps what is gathered, since an expression in an argument is completed and folded.
-/
theorem completed (e : Expr) : view e.completed = view e := by
  have harguments : ∀ {arguments : ArgTree Expr},
      (∀ e ∈ arguments.expressions, view e.completed = view e) →
        (arguments.map (Expr.settled true)).map view = arguments.map view := by
    intro arguments ih
    rw [ArgTree.map_map]
    refine ArgTree.map_congr fun e he => ?_
    rw [settled_true, h.fold, ih e he]
  induction e with
  | literal | name | field | currentRow | cell => rfl
  | sequence items ih =>
    rw [completed_sequence, h.sequence, h.sequence, List.flatMap_map]
    exact List.flatMap_congr ih
  | paren inner ih =>
    rw [h.paren, ← ih]
    exact h.paren inner.completed
  | call function arguments ih =>
    rw [completed_call]
    exact h.call (harguments ih)
  | member target n ih => exact h.member ih
  | memberCall target n arguments ih iharguments =>
    rw [completed_memberCall]
    exact h.memberCall ih (harguments iharguments)
  | unary op operand ih =>
    rw [h.unary, ← ih]
    exact h.unary op operand.completed
  | binary op left right ihl ihr =>
    rw [h.binary, ← ihl, ← ihr]
    exact h.binary op left.completed right.completed

/-- **Settling keeps what is gathered**: the expressions in arguments are folded from the inside
out. -/
theorem settled (e : Expr) : view (e.settled true) = view e := by
  rw [settled_true, h.fold, h.completed]

end Gathers

/-! ### Dependencies -/

theorem itemsNodes_eq_flatMap (items : List Expr) : itemsNodes items = items.flatMap nodes := by
  induction items with
  | nil => rfl
  | cons item others ih => rw [itemsNodes, ih, List.flatMap_cons]

theorem argumentsNodes_eq_flatMap (arguments : ArgTree Expr) :
    argumentsNodes arguments = arguments.expressions.flatMap nodes := by
  induction arguments with
  | omitted => rfl
  | leaf e => simp [argumentsNodes]
  | group level slots ih =>
    rw [argumentsNodes, ArgTree.expressions_group]
    induction slots with
    | nil => rfl
    | cons slot others ihothers =>
      rw [slotsNodes, ih slot (by simp), ihothers fun slot hslot => ih slot (by simp [hslot])]
      simp

/-- Whether a node **refers** to something by itself, as names, fields and cells do. -/
def refers : Expr → Bool
  | .name _ | .field _ | .cell _ => true
  | _ => false

/-- What is read off the nodes that refer to something is gathered. -/
theorem gathers_filterMap_nodes {f : Expr → Option α}
    (h : ∀ node : Expr, node.refers = false → f node = none) :
    Gathers fun e => e.nodes.filterMap f := by
  -- what a call gives depends on the lists at the leaves of its arguments alone
  have harguments : ∀ arguments : ArgTree Expr, (argumentsNodes arguments).filterMap f =
      (arguments.map fun e => e.nodes.filterMap f).expressions.flatten := by
    intro arguments
    rw [argumentsNodes_eq_flatMap, ArgTree.expressions_map, List.filterMap_flatMap,
      List.flatMap_def]
  have hskip : ∀ {node : Expr} {others : List Expr}, node.refers = false →
      (node :: others).filterMap f = others.filterMap f :=
    fun hnode => List.filterMap_cons_none (h _ hnode)
  exact {
    literal := fun value => hskip rfl
    sequence := fun items => by
      rw [nodes, hskip rfl, itemsNodes_eq_flatMap, List.filterMap_flatMap]
    paren := fun inner => hskip rfl
    call := fun heq => by
      rw [nodes, nodes, hskip rfl, hskip rfl, harguments, harguments, heq]
    member := fun heq => by
      rw [nodes, nodes, hskip rfl, hskip rfl, heq]
    memberCall := fun heq heq' => by
      rw [nodes, nodes, hskip rfl, hskip rfl, List.filterMap_append, List.filterMap_append,
        harguments, harguments, heq, heq']
    unary := fun op operand => hskip rfl
    binary := fun op left right => by rw [nodes, hskip rfl, List.filterMap_append] }

end Expr

namespace ArgTree

variable {ε α : Type}

theorem collect_map (add : ε → α → α) (g : ε → ε) (tree : ArgTree ε) (held : α) :
    collect add (tree.map g) held = collect (fun e => add (g e)) tree held := by
  rw [collect_eq_foldl, collect_eq_foldl, leaves_map, List.foldl_map]
  congr 1
  funext held e
  cases e <;> rfl

/-- **Folding never changes a dependency.** A tree uses the same parameters, fields and cells before
and after it is optimized, in the same order and whatever was held before, and the same bare names
occur in it. -/
theorem dependencies_optimize (tree : ArgTree Expr) :
    (∀ context held, tree.optimize.1.usedParams context held = tree.usedParams context held) ∧
    (∀ context held, tree.optimize.1.usedFields context held = tree.usedFields context held) ∧
    (∀ held, tree.optimize.1.usedCells held = tree.usedCells held) ∧
    ∀ name, tree.optimize.1.containsParam name = tree.containsParam name := by
  have hkept : ∀ {β : Type} {f : Expr → Option β},
      (∀ node : Expr, node.refers = false → f node = none) →
        ∀ e : Expr, (Expr.fold e).1.nodes.filterMap f = e.nodes.filterMap f :=
    fun h e => (Expr.gathers_filterMap_nodes h).fold e
  have hbare : ∀ node : Expr, node.refers = false → node.bareName? = none := by
    intro node hnode
    cases node <;> first | rfl | cases hnode
  have hparams : ∀ context, ∀ node : Expr, node.refers = false → node.param? context = none := by
    intro context node hnode
    rw [Expr.param?, hbare node hnode]
    rfl
  have hfields : ∀ context, ∀ node : Expr, node.refers = false → node.field? context = none := by
    intro context node hnode
    cases node <;> first | rfl | cases hnode
  have hcells : ∀ node : Expr, node.refers = false → node.cell? = none := by
    intro node hnode
    cases node <;> first | rfl | cases hnode
  rw [optimize_eq_map]
  refine ⟨fun context held => ?_, fun context held => ?_, fun held => ?_, fun name => ?_⟩
  · refine (collect_map _ _ _ _).trans (congrArg (collect · tree held) (funext fun e => ?_))
    exact funext fun held => congrArg (addNew held) (hkept (hparams context) e)
  · refine (collect_map _ _ _ _).trans (congrArg (collect · tree held) (funext fun e => ?_))
    exact funext fun held => congrArg (addNew held) (hkept (hfields context) e)
  · refine (collect_map _ _ _ _).trans (congrArg (collect · tree held) (funext fun e => ?_))
    exact funext fun held => congrArg (addNew held) (hkept hcells e)
  · rw [containsParam, containsParam, leaves_map, List.any_map]
    refine List.any_congr rfl fun entry => ?_
    cases entry with
    | none => rfl
    | some e => exact congrArg (List.contains · name) (hkept hbare e)

end ArgTree

end GridFormula
