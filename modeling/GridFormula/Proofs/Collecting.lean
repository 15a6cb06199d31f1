import GridFormula.Proofs.Parts

/-!
# What a tree depends on

The parameters, the fields and the cells of a tree, and whether a bare name occurs in it, are all
read off one row: the nodes of its expressions in the order in which they are visited. A node is
visited before its parts, and those from left to right. Each node depends on one thing at most, so
what is collected are the parts of one row of dependencies.

Collecting goes from leaf to leaf and adds to what it holds. It never adds an item that it holds, so
each new one is added where it occurs first.

## Main definitions

* `Expr.Visits`: the nodes in the order of a visit.
* `Dependency`, `Expr.dependency?`: what a node depends on.
* `ArgTree.Collects`: what is collected over a tree, by the nodes that are visited.

## Main results

* `addNew_eq_append`: the items that are added, in order.
* `Expr.visits_iff`: there is one order.
* `ArgTree.collects_visited`: collecting is exact.
-/

namespace GridFormula

/-! ### Adding new items -/

section AddNew

variable {α β : Type} [DecidableEq α]

/-- To add what some lists hold, one list after the other, is to add all of it. -/
theorem foldl_addNew (f : β → List α) (sources : List β) (held : List α) :
    sources.foldl (fun held source => addNew held (f source)) held =
      addNew held (sources.flatMap f) :=
  List.foldl_flatMap.symm

theorem removeAll_concat (items held : List α) (item : α) :
    items.removeAll (held ++ [item]) = (items.removeAll held).filter fun other => !other == item := by
  rw [List.removeAll, List.removeAll, List.filter_filter]
  refine List.filter_congr fun other _ => ?_
  simp [Bool.beq_eq_decide_eq, Bool.and_comm]

/-- What is added are the items that are not held, each **where it occurs first**. -/
theorem addNew_eq_append (held items : List α) :
    addNew held items = held ++ (items.removeAll held).eraseDups := by
  induction items generalizing held with
  | nil => exact (List.append_nil held).symm
  | cons item others ih =>
    rw [addNew, List.foldl_cons, ← addNew]
    split
    · next hheld => rw [ih, List.cons_removeAll, if_neg (by simpa using hheld)]
    · next hnew =>
      rw [ih, List.cons_removeAll, if_pos (by simpa using hnew), List.eraseDups_cons,
        removeAll_concat, List.append_assoc, List.singleton_append]

theorem mem_addNew_iff {held items : List α} {item : α} :
    item ∈ addNew held items ↔ item ∈ held ∨ item ∈ items := by
  rw [addNew_eq_append, List.mem_append, List.mem_eraseDups, List.removeAll, List.mem_filter]
  by_cases h : item ∈ held <;> simp [h]

end AddNew

/-! ### Visiting nodes -/

namespace Expr

/-- The nodes of a row of expressions in the order of a **visit**. The first expression comes
first, then its parts and after them the rest of the row. -/
inductive Visits : List Expr → List Expr → Prop
  /-- Nothing is left to visit. -/
  | nil : Visits [] []
  /-- Visiting the first expression. -/
  | cons {e : Expr} {rest nodes : List Expr} :
      Visits (e.parts ++ rest) nodes → Visits (e :: rest) (e :: nodes)

theorem Visits.eq_flatMap {row visited : List Expr} (h : Visits row visited) :
    visited = row.flatMap nodes := by
  induction h with
  | nil => rfl
  | cons _ ih =>
    rw [ih, List.flatMap_append, List.flatMap_cons, nodes_eq_cons, List.cons_append]

theorem Visits.append {row others visited : List Expr} (h : Visits others visited)
    (hrow : ∀ e ∈ row, ∀ {others visited : List Expr}, Visits others visited →
      Visits (e :: others) (e.nodes ++ visited)) :
    Visits (row ++ others) (row.flatMap nodes ++ visited) := by
  induction row with
  | nil => exact h
  | cons e row ih =>
    rw [List.flatMap_cons, List.append_assoc]
    exact hrow e List.mem_cons_self (ih fun e he => hrow e (List.mem_cons_of_mem _ he))

/-- The nodes of an expression come first when the expression does. -/
theorem Visits.cons_nodes (e : Expr) {others visited : List Expr} (h : Visits others visited) :
    Visits (e :: others) (e.nodes ++ visited) := by
  induction e using parts_induct generalizing others visited with
  | step e ih =>
    rw [nodes_eq_cons, List.cons_append]
    exact .cons (h.append fun part hpart => ih part hpart)

/-- There is **one order** in which the nodes of a row of expressions are visited. -/
theorem visits_iff {row visited : List Expr} :
    Visits row visited ↔ visited = row.flatMap nodes := by
  refine ⟨Visits.eq_flatMap, ?_⟩
  rintro rfl
  have hrow : Visits (row ++ []) (row.flatMap nodes ++ []) :=
    Visits.nil.append fun e _ _ _ h => h.cons_nodes e
  rwa [List.append_nil, List.append_nil] at hrow

end Expr

/-! ### Dependencies -/

/-- What an expression can **depend** on. -/
inductive Dependency where
  /-- A parameter. -/
  | param (name : String)
  /-- A field. -/
  | field (name : String)
  /-- A cell. -/
  | cell (cell : Cell)

namespace Dependency

/-- The name of a parameter. -/
def param? : Dependency → Option String
  | param name => some name
  | _ => none

/-- The name of a field. -/
def field? : Dependency → Option String
  | field name => some name
  | _ => none

/-- The position of a cell. -/
def cell? : Dependency → Option Cell
  | cell c => some c
  | _ => none

end Dependency

namespace Expr

/-- What a node **depends** on by itself. A bare name is a parameter when the context binds it, and
a field otherwise; a quoted name is a field. -/
def dependency? (context : Context) : Expr → Option Dependency
  | .name n => some (if context.contains n then .param n else .field n)
  | .field n => some (.field n)
  | .cell c => some (.cell c)
  | _ => none

theorem param?_eq_bind (context : Context) (node : Expr) :
    node.param? context = (node.dependency? context).bind Dependency.param? := by
  cases node with
  | name n =>
    cases h : context.contains n <;> simp [param?, bareName?, dependency?, h, Dependency.param?]
  | _ => rfl

theorem field?_eq_bind (context : Context) (node : Expr) :
    node.field? context = (node.dependency? context).bind Dependency.field? := by
  cases node with
  | name n => cases h : context.contains n <;> simp [field?, dependency?, h, Dependency.field?]
  | _ => rfl

theorem cell?_eq_bind (context : Context) (node : Expr) :
    node.cell? = (node.dependency? context).bind Dependency.cell? := by
  cases node with
  | name n => cases h : context.contains n <;> simp [cell?, dependency?, h, Dependency.cell?]
  | _ => rfl

/-- A bare name contributes a parameter when the context binds it. -/
theorem mem_filterMap_param?_iff {context : Context} {visited : List Expr} {n : String} :
    n ∈ visited.filterMap (param? context) ↔ .name n ∈ visited ∧ context.contains n = true := by
  rw [List.mem_filterMap]
  constructor
  · rintro ⟨node, hnode, hparam⟩
    obtain ⟨hname, hbound⟩ := Option.filter_eq_some_iff.1 hparam
    cases node <;> cases hname
    exact ⟨hnode, hbound⟩
  · rintro ⟨hname, hbound⟩
    exact ⟨.name n, hname, Option.filter_eq_some_iff.2 ⟨rfl, hbound⟩⟩

/-- A bare name contributes a field when the context does not bind it, and a quoted name always. -/
theorem mem_filterMap_field?_iff {context : Context} {visited : List Expr} {n : String} :
    n ∈ visited.filterMap (field? context) ↔
      .name n ∈ visited ∧ context.contains n = false ∨ .field n ∈ visited := by
  rw [List.mem_filterMap]
  constructor
  · rintro ⟨node, hnode, hfield⟩
    cases node with
    | name m =>
      rw [field?] at hfield
      split at hfield
      · cases hfield
      · next hfree =>
        cases hfield
        exact .inl ⟨hnode, Bool.eq_false_of_not_eq_true hfree⟩
    | field m =>
      cases hfield
      exact .inr hnode
    | _ => cases hfield
  · rintro (⟨hname, hfree⟩ | hquoted)
    · exact ⟨.name n, hname, by simp [field?, hfree]⟩
    · exact ⟨.field n, hquoted, rfl⟩

theorem mem_filterMap_bareName?_iff {visited : List Expr} {n : String} :
    n ∈ visited.filterMap bareName? ↔ .name n ∈ visited := by
  rw [List.mem_filterMap]
  constructor
  · rintro ⟨node, hnode, hname⟩
    cases node <;> cases hname
    exact hnode
  · exact fun h => ⟨.name n, h, rfl⟩

end Expr

/-! ### Collecting over trees -/

namespace ArgTree

theorem collect_eq_foldl_expressions {ε α : Type} (add : ε → α → α) (tree : ArgTree ε)
    (held : α) :
    collect add tree held = tree.expressions.foldl (fun held e => add e held) held := by
  rw [collect_eq_foldl, expressions, List.foldl_filterMap]
  congr 1
  funext held entry
  cases entry <;> rfl

/-- To collect over a tree is to add what the nodes give that are visited, in order. -/
theorem collect_addNew {α : Type} [DecidableEq α] (f : Expr → Option α) (tree : ArgTree Expr)
    (held : List α) :
    collect (fun e held => addNew held (e.nodes.filterMap f)) tree held =
      addNew held ((tree.expressions.flatMap Expr.nodes).filterMap f) := by
  rw [collect_eq_foldl_expressions, foldl_addNew, List.filterMap_flatMap]

theorem containsParam_eq_any (n : String) (tree : ArgTree Expr) :
    tree.containsParam n = tree.expressions.any (Expr.containsParam n) := by
  rw [containsParam, expressions, List.any_filterMap]
  refine List.any_congr rfl fun entry => ?_
  cases entry <;> rfl

theorem containsParam_iff {n : String} {tree : ArgTree Expr} :
    tree.containsParam n = true ↔ .name n ∈ tree.expressions.flatMap Expr.nodes := by
  rw [containsParam_eq_any, List.any_eq_true, List.mem_flatMap]
  refine exists_congr fun e => and_congr_right fun _ => ?_
  rw [Expr.containsParam, List.contains_iff_mem, Expr.mem_filterMap_bareName?_iff]

/-- What is **collected** over a tree, by the nodes that are visited. -/
structure Collects (tree : ArgTree Expr) (visited : List Expr) : Prop where
  /-- The parameters come behind those held, each new one where it occurs first. -/
  usedParams : ∀ context held, tree.usedParams context held = held ++
    (((visited.filterMap (Expr.dependency? context)).filterMap Dependency.param?).removeAll
      held).eraseDups
  /-- So do the fields. -/
  usedFields : ∀ context held, tree.usedFields context held = held ++
    (((visited.filterMap (Expr.dependency? context)).filterMap Dependency.field?).removeAll
      held).eraseDups
  /-- So do the cells, whatever is bound. -/
  usedCells : ∀ context held, tree.usedCells held = held ++
    (((visited.filterMap (Expr.dependency? context)).filterMap Dependency.cell?).removeAll
      held).eraseDups
  /-- A bare name is contained when it is visited. -/
  containsParam : ∀ n, tree.containsParam n = true ↔ .name n ∈ visited
  /-- Of the names that are bound, those are contained that are parameters. -/
  containsParam_bound : ∀ context n, context.contains n = true →
    (tree.containsParam n = true ↔ n ∈ tree.usedParams context [])
  /-- Nothing is a parameter but the bare names that are bound. -/
  mem_usedParams : ∀ context held n, n ∈ tree.usedParams context held ↔
    n ∈ held ∨ .name n ∈ visited ∧ context.contains n = true
  /-- Nothing is a field but the bare names that are not bound, and the quoted names. -/
  mem_usedFields : ∀ context held n, n ∈ tree.usedFields context held ↔
    n ∈ held ∨ .name n ∈ visited ∧ context.contains n = false ∨ .field n ∈ visited
  /-- A bare name is in one of the two lists, unless the same name is quoted somewhere else. -/
  bareName : ∀ context n, .name n ∈ visited → .field n ∉ visited →
    (n ∈ tree.usedFields context [] ↔ n ∉ tree.usedParams context [])

/-- What is collected over a tree is what its expressions add, **one after the other**. -/
structure CollectsByLeaf (tree : ArgTree Expr) : Prop where
  /-- The parameters. -/
  usedParams : ∀ context held, tree.usedParams context held =
    tree.expressions.foldl (fun held e => e.usedParams context held) held
  /-- The fields. -/
  usedFields : ∀ context held, tree.usedFields context held =
    tree.expressions.foldl (fun held e => e.usedFields context held) held
  /-- The cells. -/
  usedCells : ∀ held, tree.usedCells held =
    tree.expressions.foldl (fun held e => e.usedCells held) held
  /-- The bare names. -/
  containsParam : ∀ n, tree.containsParam n = tree.expressions.any (Expr.containsParam n)

theorem collects_flatMap (tree : ArgTree Expr) :
    tree.Collects (tree.expressions.flatMap Expr.nodes) := by
  have hparams : ∀ context held n, n ∈ tree.usedParams context held ↔
      n ∈ held ∨ .name n ∈ tree.expressions.flatMap Expr.nodes ∧ context.contains n = true := by
    intro context held n
    rw [← Expr.mem_filterMap_param?_iff, ← mem_addNew_iff, ← collect_addNew]
    rfl
  have hfields : ∀ context held n, n ∈ tree.usedFields context held ↔
      n ∈ held ∨ .name n ∈ tree.expressions.flatMap Expr.nodes ∧ context.contains n = false ∨
        .field n ∈ tree.expressions.flatMap Expr.nodes := by
    intro context held n
    rw [← Expr.mem_filterMap_field?_iff, ← mem_addNew_iff, ← collect_addNew]
    rfl
  exact {
    usedParams := fun context held => by
      rw [List.filterMap_filterMap, ← funext (Expr.param?_eq_bind context), ← addNew_eq_append]
      exact collect_addNew _ tree held
    usedFields := fun context held => by
      rw [List.filterMap_filterMap, ← funext (Expr.field?_eq_bind context), ← addNew_eq_append]
      exact collect_addNew _ tree held
    usedCells := fun context held => by
      rw [List.filterMap_filterMap, ← funext (Expr.cell?_eq_bind context), ← addNew_eq_append]
      exact collect_addNew _ tree held
    containsParam := fun n => containsParam_iff
    containsParam_bound := fun context n hbound => by
      rw [containsParam_iff, hparams]
      simp [hbound]
    mem_usedParams := hparams
    mem_usedFields := hfields
    bareName := fun context n hname hquoted => by
      rw [hparams, hfields]
      simp [hname, hquoted] }

theorem collectsByLeaf (tree : ArgTree Expr) : tree.CollectsByLeaf where
  usedParams _ held := collect_eq_foldl_expressions _ tree held
  usedFields _ held := collect_eq_foldl_expressions _ tree held
  usedCells held := collect_eq_foldl_expressions _ tree held
  containsParam n := containsParam_eq_any n tree

/-- **Collecting is exact.** There is one order in which the nodes of a tree are visited, and the
parameters, the fields, the cells and the bare names of the tree are what these nodes depend on. To
go through the tree is to go from one of its expressions to the next. -/
theorem collects_visited (tree : ArgTree Expr) :
    (∃ visited, (∀ nodes, Expr.Visits tree.expressions nodes ↔ nodes = visited) ∧
      tree.Collects visited) ∧ tree.CollectsByLeaf :=
  ⟨⟨_, fun _ => Expr.visits_iff, collects_flatMap tree⟩, collectsByLeaf tree⟩

/-- In `f(y,x,y):'x'` with `x` bound and `y` held, `x` is a parameter and, quoted, a field. -/
example :
    let tree : ArgTree Expr := .group .colon [.leaf (.call "f" (.group .comma
      [.leaf (.name "y"), .leaf (.name "x"), .leaf (.name "y")])), .leaf (.field "x")]
    let context := Context.empty.set "x" (.text "")
    tree.usedParams context ["y"] = ["y", "x"] ∧ tree.usedFields context ["y"] = ["y", "x"] := by
  decide

end ArgTree

end GridFormula
