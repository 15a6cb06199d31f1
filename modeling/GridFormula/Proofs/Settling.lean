import GridFormula.Expr.Leaf
import GridFormula.Proofs.Folding
import GridFormula.Proofs.Reading

/-!
# Folding while reading and folding afterwards

When constants are folded while a text is read, the arguments of a call are folded before the
expression that the call stands in. When the tree that was read is optimized afterwards, folding
goes through that expression once and comes to the arguments on its way, unless it is stopped
before. So an argument behind an operator that fails is folded in the first case and left as it was
in the second, and this is the only difference.

Otherwise the two orders commute: a failure stops an expression at the same operator whether or not
the arguments of its calls are folded before (`Expr.fold_completed`).

## Main definitions

* `Expr.completed`: an expression with the arguments of its calls settled.
* `Expr.skipped`: the arguments that folding does not come to.

## Main results

* `Expr.settled_eq_completed`: settling is folding and completing afterwards.
* `Expr.completed_fold_iff`: completing changes nothing when what was skipped is settled.
* `ArgTree.parseWith_optimize_iff`: what is read with folding, by what is read without.
* `ArgTree.parseWith_ne_optimize`: the two differ where a failure stands before a call.
-/

namespace GridFormula

namespace Expr

/-! ### Completing -/

/-- An expression **completed**: the expressions in the arguments of its calls are settled. -/
def completed (e : Expr) : Expr := e.within (finished true)

theorem settled_true (e : Expr) : e.settled true = (fold e.completed).1 := rfl

theorem completed_sequence (items : List Expr) :
    (sequence items).completed = .sequence (items.map completed) :=
  congrArg sequence (itemsWithin_eq_map _ items)

theorem completed_call (n : String) (arguments : ArgTree Expr) :
    (call n arguments).completed = .call n (arguments.map (settled true)) :=
  congrArg (call n) (argumentsWithin_eq_map _ arguments)

theorem completed_memberCall (target : Expr) (n : String) (arguments : ArgTree Expr) :
    (memberCall target n arguments).completed =
      .memberCall target.completed n (arguments.map (settled true)) :=
  congrArg (memberCall target.completed n) (argumentsWithin_eq_map _ arguments)

/-- Completing makes no literals. -/
theorem constant?_completed (e : Expr) : e.completed.constant? = e.constant? := by
  cases e <;> rfl

theorem constants?_completed (items : List Expr) :
    constants? (items.map completed) = constants? items := by
  induction items with
  | nil => rfl
  | cons item others ih => rw [List.map_cons, constants?, constants?, constant?_completed, ih]

theorem foldedParen_completed (inner : Expr) :
    foldedParen inner.completed = (foldedParen inner).completed := by
  cases inner <;> rfl

theorem foldedSequence_completed (items : List Expr) :
    foldedSequence (items.map completed) = (foldedSequence items).completed := by
  unfold foldedSequence
  rw [constants?_completed]
  split
  · rfl
  · exact (completed_sequence items).symm

theorem foldedUnary_completed (op : UnaryOp) (operand : Expr) :
    foldedUnary op operand.completed =
      ((foldedUnary op operand).1.completed, (foldedUnary op operand).2) := by
  unfold foldedUnary
  rw [constant?_completed]
  split
  · next value _ => cases op.apply value <;> rfl
  · rfl

theorem foldedBinary_completed (op : BinaryOp) (left right : Expr) :
    foldedBinary op left.completed right.completed =
      ((foldedBinary op left right).1.completed, (foldedBinary op left right).2) := by
  unfold foldedBinary
  rw [constant?_completed, constant?_completed]
  split
  · next l r _ _ => cases op.apply l r <;> rfl
  · rfl

/-- A row of completed expressions folds to the completed row, when each of them does. -/
theorem foldItems_completed {items : List Expr}
    (h : ∀ item ∈ items, fold item.completed = ((fold item).1.completed, (fold item).2)) :
    foldItems (items.map completed) = ((foldItems items).1.map completed, (foldItems items).2) := by
  induction items with
  | nil => rfl
  | cons item others ih =>
    obtain ⟨hitem, hothers⟩ := List.forall_mem_cons.1 h
    rw [List.map_cons, foldItems, foldItems, hitem]
    rcases hfold : fold item with ⟨item', _ | failure⟩
    · rw [ih hothers]
      rfl
    · rfl

/-- Arguments settle in the same way whether or not they are folded before, when each of them
folds to its completed folded form. -/
theorem map_settled_foldArguments {arguments : ArgTree Expr}
    (h : ∀ e ∈ arguments.expressions, fold e.completed = ((fold e).1.completed, (fold e).2)) :
    (foldArguments arguments).map (settled true) = foldArguments (arguments.map (settled true)) := by
  rw [foldArguments_eq_map, foldArguments_eq_map, ArgTree.map_map, ArgTree.map_map]
  refine ArgTree.map_congr fun e he => ?_
  have hcompleted : (fold e).1.completed = (fold e.completed).1 := by rw [h e he]
  rw [settled_true, settled_true, hcompleted]

/-- **Completing commutes with folding**, and folding is stopped by the same failure. -/
theorem fold_completed (e : Expr) : fold e.completed = ((fold e).1.completed, (fold e).2) := by
  induction e with
  | literal | name | field | currentRow | cell => rfl
  | sequence items ih =>
    rw [completed_sequence, fold, fold, foldItems_completed ih]
    rcases hfold : foldItems items with ⟨items', _ | failure⟩
    · exact congrArg (·, none) (foldedSequence_completed items')
    · exact congrArg (·, some failure) (completed_sequence items').symm
  | paren inner ih =>
    rw [show (paren inner).completed = .paren inner.completed from rfl, fold, fold, ih]
    rcases hfold : fold inner with ⟨inner', _ | failure⟩
    · exact congrArg (·, none) (foldedParen_completed inner')
    · rfl
  | call n arguments ih =>
    rw [completed_call, fold, fold, completed_call, map_settled_foldArguments ih]
  | member target n ih =>
    rw [show (member target n).completed = .member target.completed n from rfl, fold, fold, ih]
    rfl
  | memberCall target n arguments ih iharguments =>
    rw [completed_memberCall, fold, fold, ih]
    rcases hfold : fold target with ⟨target', _ | failure⟩
    · rw [completed_memberCall, map_settled_foldArguments iharguments]
    · rw [completed_memberCall]
  | unary op operand ih =>
    rw [show (unary op operand).completed = .unary op operand.completed from rfl, fold, fold, ih]
    rcases hfold : fold operand with ⟨operand', _ | failure⟩
    · exact foldedUnary_completed op operand'
    · rfl
  | binary op left right ihl ihr =>
    rw [show (binary op left right).completed = .binary op left.completed right.completed from rfl,
      fold, fold, ihl]
    rcases hfold : fold left with ⟨left', _ | failure⟩
    · rw [ihr]
      rcases hfold' : fold right with ⟨right', _ | failure⟩
      · exact foldedBinary_completed op left' right'
      · rfl
    · rfl

/-- **Settling is folding and completing afterwards.** -/
theorem settled_eq_completed (e : Expr) : e.settled true = (fold e).1.completed := by
  rw [settled_true, fold_completed]

/-- What is folded before settles in the same way. -/
theorem settled_fold (e : Expr) : (fold e).1.settled true = (fold e).1.completed := by
  rw [settled_eq_completed, fold_fold]

/-! ### What folding does not come to -/

mutual

/-- The expressions in the arguments of the calls of an expression, without those of the calls in
them. -/
def inCalls : Expr → List Expr
  | .literal _ | .name _ | .field _ | .currentRow | .cell _ => []
  | .sequence items => itemsInCalls items
  | .paren inner => inner.inCalls
  | .call _ arguments => arguments.expressions
  | .member target _ => target.inCalls
  | .memberCall target _ arguments => target.inCalls ++ arguments.expressions
  | .unary _ operand => operand.inCalls
  | .binary _ left right => left.inCalls ++ right.inCalls

/-- The expressions in the arguments of the calls of a row of expressions. -/
def itemsInCalls : List Expr → List Expr
  | [] => []
  | item :: others => item.inCalls ++ itemsInCalls others

end

mutual

/-- The expressions in arguments that folding has **skipped** when it is done: they stand behind a
failure in the same expression, or in arguments that were folded up to a failure before them. -/
def skipped : Expr → List Expr
  | .literal _ | .name _ | .field _ | .currentRow | .cell _ => []
  | .sequence items => itemsSkipped items
  | .paren inner => inner.skipped
  | .call _ arguments => argumentsSkipped arguments
  | .member target _ => target.skipped
  | .memberCall target _ arguments =>
    target.skipped ++
      if (fold target).2.isNone then argumentsSkipped arguments else arguments.expressions
  | .unary _ operand => operand.skipped
  | .binary _ left right =>
    left.skipped ++ if (fold left).2.isNone then right.skipped else right.inCalls

/-- What is skipped in a row of expressions, which is folded up to the first failure. -/
def itemsSkipped : List Expr → List Expr
  | [] => []
  | item :: others =>
    item.skipped ++ if (fold item).2.isNone then itemsSkipped others else itemsInCalls others

/-- What is skipped in arguments, each of which is folded on its own. -/
def argumentsSkipped : ArgTree Expr → List Expr
  | .omitted => []
  | .leaf e => e.skipped
  | .group _ slots => slotsSkipped slots

/-- What is skipped in a row of slots. -/
def slotsSkipped : List (ArgTree Expr) → List Expr
  | [] => []
  | slot :: others => argumentsSkipped slot ++ slotsSkipped others

end

theorem argumentsSkipped_eq_flatMap (arguments : ArgTree Expr) :
    argumentsSkipped arguments = arguments.expressions.flatMap skipped := by
  induction arguments with
  | omitted => rfl
  | leaf e => simp [argumentsSkipped]
  | group level slots ih =>
    rw [argumentsSkipped, ArgTree.expressions_group]
    induction slots with
    | nil => rfl
    | cons slot others ihothers =>
      rw [slotsSkipped, ih slot (by simp), ihothers fun slot hslot => ih slot (by simp [hslot])]
      simp

/-- Whether an expression is **settled**: it is what reading with folding makes of it. -/
def IsSettled (e : Expr) : Prop := e.settled true = e

/-- Completing changes nothing exactly when the expressions in arguments are settled. -/
theorem completed_eq_self_iff {e : Expr} : e.completed = e ↔ ∀ a ∈ e.inCalls, a.IsSettled := by
  induction e with
  | literal | name | field | currentRow | cell => exact ⟨fun _ => nofun, fun _ => rfl⟩
  | sequence items ih =>
    rw [completed_sequence, sequence.injEq, inCalls]
    induction items with
    | nil => simp [itemsInCalls]
    | cons item others ihothers =>
      rw [List.map_cons, List.cons.injEq, ih item (by simp),
        ihothers fun item hitem => ih item (by simp [hitem]), itemsInCalls, List.forall_mem_append]
  | paren inner ih => simpa [completed, within, inCalls] using ih
  | call n arguments =>
    rw [completed_call, call.injEq, inCalls]
    exact (and_iff_right rfl).trans ArgTree.map_eq_self_iff
  | member target n ih => simpa [completed, within, inCalls] using ih
  | memberCall target n arguments ih =>
    rw [completed_memberCall, memberCall.injEq, inCalls, List.forall_mem_append, ← ih]
    exact and_congr_right fun _ => (and_iff_right rfl).trans ArgTree.map_eq_self_iff
  | unary op operand ih => simpa [completed, within, inCalls] using ih
  | binary op left right ihl ihr =>
    rw [inCalls, List.forall_mem_append, ← ihl, ← ihr]
    simp [completed, within]

theorem completed_foldedParen_iff {inner : Expr} :
    (foldedParen inner).completed = foldedParen inner ↔ inner.completed = inner := by
  rcases foldedParen_cases inner with ⟨value, rfl, hfolded⟩ | hfolded
  · exact ⟨fun _ => rfl, fun _ => rfl⟩
  · rw [hfolded]
    simp [completed, within]

theorem completed_foldedSequence_iff {items : List Expr} :
    (foldedSequence items).completed = foldedSequence items ↔ items.map completed = items := by
  rcases foldedSequence_cases items with ⟨values, rfl, hfolded⟩ | hfolded
  · rw [hfolded, List.map_map]
    exact ⟨fun _ => rfl, fun _ => rfl⟩
  · rw [hfolded, completed_sequence, sequence.injEq]

theorem completed_foldedUnary_iff {op : UnaryOp} {operand : Expr} :
    (foldedUnary op operand).1.completed = (foldedUnary op operand).1 ↔
      operand.completed = operand := by
  unfold foldedUnary
  split
  · next value hvalue =>
    cases operand <;> cases hvalue
    cases op.apply value <;> exact ⟨fun _ => rfl, fun _ => rfl⟩
  · simp [completed, within]

theorem completed_foldedBinary_iff {op : BinaryOp} {left right : Expr} :
    (foldedBinary op left right).1.completed = (foldedBinary op left right).1 ↔
      left.completed = left ∧ right.completed = right := by
  unfold foldedBinary
  split
  · next l r hleft hright =>
    cases left <;> cases hleft
    cases right <;> cases hright
    cases op.apply l r <;> exact ⟨fun _ => ⟨rfl, rfl⟩, fun _ => rfl⟩
  · simp [completed, within]

/-- Completing a row that is folded up to a failure changes nothing exactly when what was skipped in
it is settled. -/
theorem completed_foldItems_iff {items : List Expr}
    (h : ∀ item ∈ items, (fold item).1.completed = (fold item).1 ↔
      ∀ a ∈ item.skipped, a.IsSettled) :
    (foldItems items).1.map completed = (foldItems items).1 ↔
      ∀ a ∈ itemsSkipped items, a.IsSettled := by
  induction items with
  | nil => simp [foldItems, itemsSkipped]
  | cons item others ih =>
    obtain ⟨hitem, hothers⟩ := List.forall_mem_cons.1 h
    rw [foldItems, itemsSkipped, List.forall_mem_append, ← hitem]
    rcases hfold : fold item with ⟨item', _ | failure⟩
    · simp only [List.map_cons, List.cons.injEq, ih hothers]
      simp
    · have hrest : others.map completed = others ↔ ∀ a ∈ itemsInCalls others, a.IsSettled := by
        have hsequence := completed_eq_self_iff (e := .sequence others)
        rwa [completed_sequence, sequence.injEq] at hsequence
      simp only [List.map_cons, List.cons.injEq, hrest]
      simp

/-- Completing folded arguments changes nothing exactly when what was skipped in them is settled. -/
theorem map_settled_foldArguments_iff {arguments : ArgTree Expr}
    (h : ∀ e ∈ arguments.expressions, (fold e).1.completed = (fold e).1 ↔
      ∀ a ∈ e.skipped, a.IsSettled) :
    (foldArguments arguments).map (settled true) = foldArguments arguments ↔
      ∀ a ∈ argumentsSkipped arguments, a.IsSettled := by
  rw [foldArguments_eq_map, ArgTree.map_map, ArgTree.map_eq_map_iff, argumentsSkipped_eq_flatMap,
    List.forall_mem_flatMap]
  refine forall₂_congr fun e he => ?_
  rw [settled_fold, h e he]

/-- **Completing a folded expression changes nothing** exactly when what was skipped is settled. -/
theorem completed_fold_iff {e : Expr} :
    (fold e).1.completed = (fold e).1 ↔ ∀ a ∈ e.skipped, a.IsSettled := by
  induction e with
  | literal | name | field | currentRow | cell => exact ⟨fun _ => nofun, fun _ => rfl⟩
  | sequence items ih =>
    rw [skipped, ← completed_foldItems_iff ih, fold]
    rcases hfold : foldItems items with ⟨items', _ | failure⟩
    · exact completed_foldedSequence_iff
    · simp only [completed_sequence, sequence.injEq]
  | paren inner ih =>
    rw [skipped, ← ih, fold]
    rcases hfold : fold inner with ⟨inner', _ | failure⟩
    · exact completed_foldedParen_iff
    · simp [completed, within]
  | call n arguments ih =>
    rw [skipped, ← map_settled_foldArguments_iff ih, fold, completed_call, call.injEq]
    exact and_iff_right rfl
  | member target n ih =>
    rw [skipped, ← ih, fold]
    simp [completed, within]
  | memberCall target n arguments ih iharguments =>
    rw [skipped, List.forall_mem_append, ← ih, fold]
    rcases hfold : fold target with ⟨target', _ | failure⟩
    · simp only [completed_memberCall, memberCall.injEq, Option.isNone_none, if_true,
        ← map_settled_foldArguments_iff iharguments, true_and]
    · simp only [completed_memberCall, memberCall.injEq, Option.isNone_some, true_and]
      exact and_congr_right fun _ => ArgTree.map_eq_self_iff
  | unary op operand ih =>
    rw [skipped, ← ih, fold]
    rcases hfold : fold operand with ⟨operand', _ | failure⟩
    · exact completed_foldedUnary_iff
    · simp [completed, within]
  | binary op left right ihl ihr =>
    rw [skipped, List.forall_mem_append, ← ihl, fold]
    rcases hfold : fold left with ⟨left', _ | failure⟩
    · simp only [Option.isNone_none, if_true, ← ihr]
      rcases hfold' : fold right with ⟨right', _ | failure⟩
      · exact completed_foldedBinary_iff
      · simp [completed, within]
    · simp only [Option.isNone_some, Bool.false_eq_true, if_false, ← completed_eq_self_iff]
      simp [completed, within]

/-! ### Compiling -/

/-- What compiles with folding is what compiles without, **settled**. -/
theorem compileAt_optimize_iff {env : Env} {options : Options} {depth : Nat} {text : List Char}
    {e : Expr} :
    compileAt env { options with optimize := true } depth text = .ok e ↔
      ∃ r, compileAt env { options with optimize := false } depth text = .ok r ∧
        e = r.settled true := by
  have hread : ∀ text, readAt env.grid true (nestingLimit - depth) text = .ok e ↔
      ∃ r, readAt env.grid false (nestingLimit - depth) text = .ok r ∧ e = r.settled true := by
    intro text
    simp only [readAt_eq_ok_iff, settled_false]
    constructor
    · rintro ⟨r, hr, hnesting, rfl⟩
      exact ⟨r, ⟨r, hr, hnesting, rfl⟩, rfl⟩
    · rintro ⟨_, ⟨r, hr, hnesting, rfl⟩, rfl⟩
      exact ⟨_, hr, hnesting, rfl⟩
  unfold compileAt
  cases options.expandTemplates with
  | false => exact hread text
  | true =>
    simp only [if_true]
    cases Template.expand env.context text with
    | error => exact ⟨nofun, fun ⟨_, h, _⟩ => nomatch h⟩
    | ok expanded => exact hread expanded

end Expr

namespace ArgTree

open GridFormula.Expr (settled completed skipped IsSettled)

theorem optimize_eq_map (tree : ArgTree Expr) :
    tree.optimize.1 = tree.map fun e => e.fold.1 :=
  optimize_fst tree

/-- What is read with folding is what is read without, settled. -/
theorem parseWith_optimize_settled {env : Env} {options : Options} {text : List Char}
    {tree : ArgTree Expr} :
    parseWith env { options with optimize := true } text = .ok tree ↔
      ∃ plain : ArgTree Expr, parseWith env { options with optimize := false } text = .ok plain ∧
        tree = plain.map (settled true) := by
  simp only [parseWith_eq_ok_iff]
  exact traverse_eq_ok_iff fun piece e => Expr.compileAt_optimize_iff

/-- **Folding while reading, by folding afterwards.** A text is read with folding when it is read
without, and then the tree is the plain one optimized, with the arguments of all calls completed.
The completion is not needed exactly when the arguments that optimizing skipped are settled anyway.
-/
theorem parseWith_optimize_iff (env : Env) (options : Options) (text : List Char) :
    (∀ tree : ArgTree Expr, parseWith env { options with optimize := true } text = .ok tree ↔
      ∃ plain : ArgTree Expr, parseWith env { options with optimize := false } text = .ok plain ∧
        tree = plain.optimize.1.map completed) ∧
    ∀ plain : ArgTree Expr, parseWith env { options with optimize := false } text = .ok plain →
      (parseWith env { options with optimize := true } text = .ok plain.optimize.1 ↔
        ∀ e ∈ plain.expressions, ∀ a ∈ e.skipped, a.IsSettled) := by
  have hcompleted : ∀ plain : ArgTree Expr,
      plain.optimize.1.map completed = plain.map (settled true) := by
    intro plain
    rw [optimize_eq_map, map_map]
    exact map_congr fun e _ => (Expr.settled_eq_completed e).symm
  refine ⟨fun tree => ?_, fun plain hplain => ?_⟩
  · simp only [hcompleted]
    exact parseWith_optimize_settled
  · have hread : parseWith env { options with optimize := true } text =
        .ok (plain.map (settled true)) := parseWith_optimize_settled.2 ⟨plain, hplain, rfl⟩
    rw [hread, Except.ok.injEq, optimize_eq_map, map_eq_map_iff]
    refine forall₂_congr fun e _ => ?_
    rw [Expr.settled_eq_completed, Expr.completed_fold_iff]

/-- A text that is not split is read as one leaf. -/
theorem parseWith_of_fullSplit {env : Env} {options : Options} {text : List Char} {e : Expr}
    (hsplit : fullSplit text = .leaf text) (he : Expr.compile env options text = .ok e) :
    parseWith env options text = .ok (.leaf e) := by
  rw [parseWith_eq_ok_iff, hsplit]
  exact congrArg (Except.map leaf) he

/-- Reading with folding does **not always** give what optimizing gives afterwards. In `-""&f((""))`
the minus sign fails on a text, so optimizing does not come to the argument of the call and leaves
its parentheses, while reading with folding has made it a literal. -/
theorem parseWith_ne_optimize :
    ¬ ∀ (env : Env) (options : Options) (text : List Char) (tree plain : ArgTree Expr),
      parseWith env { options with optimize := true } text = .ok tree →
        parseWith env { options with optimize := false } text = .ok plain →
          tree = plain.optimize.1 := by
  intro hsame
  have hsplit : fullSplit ['-', '"', '"', '&', 'f', '(', '(', '"', '"', ')', ')'] =
      .leaf ['-', '"', '"', '&', 'f', '(', '(', '"', '"', ')', ')'] := rfl
  have hfolded : Expr.compile ⟨⟨9, 9⟩, .empty⟩ { optimize := true }
      ['-', '"', '"', '&', 'f', '(', '(', '"', '"', ')', ')'] =
        .ok (.binary .concat (.unary .negate (.literal (.text "")))
          (.call "f" (.leaf (.literal (.text ""))))) := by cbv
  have hplain : Expr.compile ⟨⟨9, 9⟩, .empty⟩ { optimize := false }
      ['-', '"', '"', '&', 'f', '(', '(', '"', '"', ')', ')'] =
        .ok (.binary .concat (.unary .negate (.literal (.text "")))
          (.call "f" (.leaf (.paren (.literal (.text "")))))) := by cbv
  have hequal := hsame ⟨⟨9, 9⟩, .empty⟩ {} _ _ _ (parseWith_of_fullSplit hsplit hfolded)
    (parseWith_of_fullSplit hsplit hplain)
  cases hequal

end ArgTree

end GridFormula
