import GridFormula.Proofs.Gathering
import GridFormula.Proofs.Nesting

/-!
# Folding and acceptance

Constants are folded in the middle of reading, in the arguments of a call before the expression
around them is complete. What is folded has no influence on what is read next, and a failure to fold
is no error, so reading with and without folding go through a text together: both find the same
error at the same place, or both read an expression, and then one expression is the other one
completed.

The invariant is that the reader which folds is the plain one with a last step, which completes what
was read. It is carried through every reader, with a stream that is the same in both runs.

Completing and folding keep every call with the levels, slots and gaps of its arguments, so the
trees that are read have the same shape, and so have the argument trees of their calls.

## Main definitions

* `CallTree`, `Expr.calls`: the calls of an expression, with those in their arguments.
* `Expr.completing`: a reader with the last step.

## Main results

* `Expr.operandAt_completing`: the reader that folds is the plain one, completed.
* `Expr.compileAt_settled`: compiling with folding, by compiling without, errors included.
* `ArgTree.parseWith_optimize_agree`: folding changes neither what is accepted nor any shape.
-/

namespace GridFormula

/-! ### Calls -/

/-- A **call** with the calls in each of its arguments. -/
inductive CallTree where
  /-- A call of a function or a member by its name. -/
  | call (name : String) (arguments : ArgTree (List CallTree))

namespace Expr

mutual

/-- The **calls** of an expression from left to right, each with those in its arguments. -/
def calls : Expr → List CallTree
  | .literal _ | .name _ | .field _ | .currentRow | .cell _ => []
  | .sequence items => itemsCalls items
  | .paren inner => inner.calls
  | .call function arguments => [.call function (argumentsCalls arguments)]
  | .member target _ => target.calls
  | .memberCall target n arguments => target.calls ++ [.call n (argumentsCalls arguments)]
  | .unary _ operand => operand.calls
  | .binary _ left right => left.calls ++ right.calls

/-- The calls of a row of expressions. -/
def itemsCalls : List Expr → List CallTree
  | [] => []
  | item :: others => item.calls ++ itemsCalls others

/-- The calls of the expressions in an argument tree, each list in its place. -/
def argumentsCalls : ArgTree Expr → ArgTree (List CallTree)
  | .omitted => .omitted
  | .leaf e => .leaf e.calls
  | .group level slots => .group level (slotsCalls slots)

/-- The calls of the expressions in a row of slots. -/
def slotsCalls : List (ArgTree Expr) → List (ArgTree (List CallTree))
  | [] => []
  | slot :: others => argumentsCalls slot :: slotsCalls others

end

theorem itemsCalls_eq_flatMap (items : List Expr) : itemsCalls items = items.flatMap calls := by
  induction items with
  | nil => rfl
  | cons item others ih => rw [itemsCalls, ih, List.flatMap_cons]

theorem argumentsCalls_eq_map (arguments : ArgTree Expr) :
    argumentsCalls arguments = arguments.map calls :=
  ArgTree.eq_map slotsCalls rfl (fun _ => rfl) (fun _ _ => rfl) rfl (fun _ _ => rfl) arguments

/-- Calls are gathered. -/
theorem gathers_calls : Gathers calls where
  literal _ := rfl
  sequence items := itemsCalls_eq_flatMap items
  paren _ := rfl
  call heq := by rw [calls, calls, argumentsCalls_eq_map, argumentsCalls_eq_map, heq]
  member heq := heq
  memberCall heq heq' := by
    rw [calls, calls, argumentsCalls_eq_map, argumentsCalls_eq_map, heq, heq']
  unary _ _ := rfl
  binary _ _ _ := rfl

/-! ### Readers with a last step -/

/-- The reader that **completes** what another one reads. -/
def completing (reader : Reader) : Reader :=
  fun s => (reader s).map (Prod.map completed id)

/-- Completing the operands of a chain, behind each operator. -/
abbrev completedOperations (others : Operations) : Operations :=
  others.map (Prod.map id completed)

theorem operations_completing (reader : Reader) (s : TokenStream) :
    operations (completing reader) s =
      (operations reader s).map (Prod.map completedOperations id) := by
  fun_induction operations reader s with
  | case1 op span rest error hread =>
    rw [operations, completing, hread]
    rfl
  | case2 op span rest e behind hread hlt error hrec ih =>
    rw [operations, completing, hread]
    simp only [Except.map, Prod.map, id, if_pos hlt, ih, hrec]
  | case3 op span rest e behind hread hlt others last hrec ih =>
    rw [operations, completing, hread]
    simp only [Except.map, Prod.map, id, if_pos hlt, ih, hrec]
    rfl
  | case4 op span rest e behind hread hlt =>
    rw [operations, completing, hread]
    simp only [Except.map, Prod.map, id, if_neg hlt]
    rfl
  | case5 s hother =>
    rw [operations]
    · rfl
    · exact hother

theorem chain_completing (reader : Reader) :
    chain (completing reader) = completing (chain reader) := by
  funext s
  rw [chain, completing, completing, chain]
  cases hread : reader s with
  | error => rfl
  | ok read =>
    obtain ⟨first, behind⟩ := read
    dsimp only [Except.map, bind, Except.bind, Prod.map, id]
    rw [operations_completing]
    cases operations reader behind with
    | error => rfl
    | ok read =>
      obtain ⟨others, last⟩ := read
      have hchain : assemble first.completed (completedOperations others) =
          (assemble first others).completed := assemble_map (fun _ _ _ => rfl) first others
      dsimp only [Except.map, Prod.map, id, pure, Except.pure]
      rw [hchain]

theorem whole_completing (reader : Reader) (s : TokenStream) :
    whole (completing reader) s = (whole reader s).map completed := by
  rw [whole, whole, chain_completing, completing]
  cases chain reader s with
  | error => rfl
  | ok read =>
    obtain ⟨e, last⟩ := read
    cases last <;> rfl

theorem elements_completing (reader : Reader) (s : TokenStream) :
    elements (completing reader) s = (elements reader s).map (Prod.map (List.map completed) id) := by
  fun_induction elements reader s with
  | case1 s error hread =>
    rw [elements, completing, hread]
    rfl
  | case2 s e span rest hread hlt error hrec ih =>
    rw [elements, completing, hread]
    simp only [Except.map, Prod.map, id, if_pos hlt, ih, hrec]
  | case3 s e span rest hread hlt others last hrec ih =>
    rw [elements, completing, hread]
    simp only [Except.map, Prod.map, id, if_pos hlt, ih, hrec]
    rfl
  | case4 s e span rest hread hlt =>
    rw [elements, completing, hread]
    simp only [Except.map, Prod.map, id, if_neg hlt]
    rfl
  | case5 s e behind hother hread =>
    rw [elements, completing, hread]
    simp only [Except.map, Prod.map, id]
    cases behind with
    | token t span rest =>
      cases t with
      | comma => exact absurd rfl (hother span rest)
      | _ => rfl
    | _ => rfl

end Expr

/-! ### Arguments -/

namespace ArgTree

variable {ε φ ψ : Type}

/-- A last step at every leaf is a last step on the tree. -/
theorem traverse_eq_map_traverse (f : ε → Except Error φ) (finish : φ → ψ) (tree : ArgTree ε) :
    (tree.traverse fun e => (f e).map finish) = (tree.traverse f).map (ArgTree.map finish) := by
  induction tree with
  | omitted => rfl
  | leaf e =>
    rw [traverse, traverse]
    cases f e <;> rfl
  | group level slots ih =>
    have hslots : traverseSlots (fun e => (f e).map finish) slots =
        (traverseSlots f slots).map (mapSlots finish) := by
      induction slots with
      | nil => rfl
      | cons slot others ihothers =>
        rw [traverseSlots, traverseSlots, ih slot (by simp),
          ihothers fun slot hslot => ih slot (by simp [hslot])]
        cases traverse f slot with
        | error => rfl
        | ok slot' => cases traverseSlots f others <;> rfl
    rw [traverse, traverse, hslots]
    cases traverseSlots f slots <;> rfl

theorem ofText_eq_map_ofText (compile : List Char → Except Error φ) (finish : φ → ψ)
    (text : List Char) :
    ofText (fun text => (compile text).map finish) text =
      (ofText compile text).map (ArgTree.map finish) := by
  have hpiece : ∀ piece, compilePiece (fun text => (compile text).map finish) piece =
      (compilePiece compile piece).map finish := by
    intro piece
    rw [compilePiece, compilePiece, mapError_map]
  rw [ofText_eq_traverse, ofText_eq_traverse, ← traverse_eq_map_traverse]
  exact traverse_congr fun piece _ => hpiece piece

end ArgTree

namespace Expr

theorem arguments_completing (reader : Reader) (opening : Nat) (text : List Char) :
    arguments true (some (completing reader)) opening text =
      (arguments false (some reader) opening text).map (ArgTree.map (settled true)) := by
  have hleaf : ∀ text : List Char,
      (do let e ← whole (completing reader) (.ofText text); pure e.fold.1 : Except Error Expr) =
        (whole reader (.ofText text)).map (settled true) := by
    intro text
    rw [whole_completing]
    cases whole reader (.ofText text) <;> rfl
  simp only [arguments, if_true, Bool.false_eq_true, if_false, hleaf, bind_pure]
  rw [ArgTree.ofText_eq_map_ofText, mapError_map]

/-! ### Operands -/

variable (deeper : Option Reader)

/-- The arguments of a call, at whatever level. -/
theorem deeper_arguments_completing (opening : Nat) (text : List Char) :
    arguments true (deeper.map completing) opening text =
      (arguments false deeper opening text).map (ArgTree.map (settled true)) := by
  cases deeper with
  | none => rfl
  | some reader => exact arguments_completing reader opening text

theorem openCallError_completing (opening stop : Nat) :
    openCallError (deeper.map completing) opening stop = openCallError deeper opening stop := by
  cases deeper <;> rfl

theorem members_completing (e : Expr) (s : TokenStream) :
    members true (deeper.map completing) e.completed s =
      (members false deeper e s).map (Prod.map completed id) := by
  fun_induction members false deeper e s with
  | case1 e span n span' rest ih =>
    rw [members]
    exact ih
  | case2 e span n span' opening text rest ih =>
    rw [members, deeper_arguments_completing]
    cases arguments false deeper opening text with
    | error => rfl
    | ok inside =>
      have hrest := ih inside
      rw [completed_memberCall] at hrest
      exact hrest
  | case3 e span n span' opening stop =>
    rw [members, openCallError_completing]
    rfl
  | case4 e span t span' rest hname =>
    rw [members]
    · cases rest.intact <;> rfl
    · exact hname
  | case5 e span s h₁ h₂ h₃ h₄ =>
    rw [members]
    · rfl
    all_goals assumption
  | case6 e s h₁ h₂ h₃ h₄ h₅ =>
    rw [members]
    · rfl
    all_goals assumption

theorem unaryOperand_completing (op : UnaryOp) (span : Span) :
    unaryOperand (deeper.map completing) op span = completing (unaryOperand deeper op span) := by
  funext s
  cases deeper with
  | none => rfl
  | some reader =>
    change completing reader s >>= _ = (reader s >>= _).map _
    rw [completing]
    cases reader s <;> rfl

theorem parenthesized_completing (span : Span) :
    parenthesized (deeper.map completing) span = completing (parenthesized deeper span) := by
  funext s
  cases deeper with
  | none => rfl
  | some reader =>
    change chain (completing reader) s >>= _ = (chain reader s >>= _).map _
    rw [chain_completing, completing]
    cases chain reader s with
    | error => rfl
    | ok read =>
      obtain ⟨inner, behind⟩ := read
      dsimp only [Except.map, bind, Except.bind, Prod.map, id]
      cases behind.behindRoundClose <;> rfl

theorem bracketed_completing (span : Span) :
    bracketed (deeper.map completing) span = completing (bracketed deeper span) := by
  funext s
  cases deeper with
  | none => rfl
  | some reader =>
    rw [completing, bracketed, bracketed]
    dsimp only [Option.map, nested, bind, Except.bind]
    split
    · rfl
    · rw [chain_completing, elements_completing]
      cases elements (chain reader) s with
      | error => rfl
      | ok read =>
        obtain ⟨items, behind⟩ := read
        dsimp only [Except.map, Prod.map, id]
        cases behind.behindSquareClose with
        | error => rfl
        | ok last =>
          dsimp only [pure, Except.pure, Except.map, Prod.map, id]
          rw [completed_sequence]

/-- A **bare name** is complete as it is. -/
theorem completed_of_ofName {grid : Grid} {n : String} {span : Span} {e : Expr}
    (h : ofName grid n span = .ok e) : e.completed = e :=
  within_of_standsFor (ofName_eq_ok_iff.1 h) _

theorem operand_completing (grid : Grid) :
    operand grid true (deeper.map completing) = completing (operand grid false deeper) := by
  funext s
  have hmembers := members_completing deeper
  rw [completing]
  unfold operand
  split
  · exact congrFun (unaryOperand_completing deeper _ _) _
  · exact congrFun (unaryOperand_completing deeper _ _) _
  · next n _ rest => exact hmembers (.literal (.number n)) rest
  · next s _ rest => exact hmembers (.literal (.text s)) rest
  · next n _ rest => exact hmembers (.field n) rest
  · next _ rest => exact hmembers .currentRow rest
  · next n span rest =>
    cases rest.intact with
    | error => rfl
    | ok =>
      cases hname : ofName grid n span with
      | error => rfl
      | ok e =>
        have hrest := hmembers e rest
        rw [completed_of_ofName hname] at hrest
        exact hrest
  · next span rest =>
    rw [parenthesized_completing, completing]
    cases parenthesized deeper span rest with
    | error => rfl
    | ok read => exact hmembers _ _
  · next span rest =>
    rw [bracketed_completing, completing]
    cases bracketed deeper span rest with
    | error => rfl
    | ok read => exact hmembers _ _
  · next n span opening text rest =>
    rw [deeper_arguments_completing]
    cases arguments false deeper opening text with
    | error => rfl
    | ok inside =>
      have hrest := hmembers (.call n inside) rest
      rw [completed_call] at hrest
      exact hrest
  · rw [openCallError_completing]
    rfl
  · rfl

/-- The reader that **folds** is the plain one, completed, with any number of levels left. -/
theorem operandAt_completing (grid : Grid) (levels : Nat) :
    operandAt grid true levels = completing (operandAt grid false levels) := by
  induction levels with
  | zero => exact operand_completing none grid
  | succ levels ih =>
    rw [operandAt, operandAt, ih]
    exact operand_completing (some (operandAt grid false levels)) grid

/-! ### Compiling -/

theorem readAt_settled (grid : Grid) (levels : Nat) (text : List Char) :
    readAt grid true levels text = (readAt grid false levels text).map (settled true) := by
  rw [readAt, readAt, operandAt_completing, whole_completing]
  cases whole (operandAt grid false levels) (.ofText text) <;> rfl

/-- What is **compiled with folding** is what is compiled without, settled. The errors are the same.
-/
theorem compileAt_settled (env : Env) (options : Options) (depth : Nat) (text : List Char) :
    compileAt env { options with optimize := true } depth text =
      (compileAt env { options with optimize := false } depth text).map (settled true) := by
  rw [compileAt, compileAt]
  cases options.expandTemplates with
  | false => exact readAt_settled env.grid _ text
  | true =>
    simp only [if_true]
    cases Template.expand env.context text with
    | error => rfl
    | ok expanded => exact readAt_settled env.grid _ expanded

end Expr

namespace ArgTree

/-- Argument text is read with folding as it is read without, and then **settled**. -/
theorem parseWith_settled (env : Env) (options : Options) (text : List Char) :
    (parseWith env { options with optimize := true } text : Except Error (ArgTree Expr)) =
      (parseWith env { options with optimize := false } text).map
        (ArgTree.map (Expr.settled true)) := by
  have hcompile : (Leaf.compile env { options with optimize := true } 0 :
      List Char → Except Error Expr) = fun text =>
        (Expr.compileAt env { options with optimize := false } 0 text).map (Expr.settled true) :=
    funext (Expr.compileAt_settled env options 0)
  rw [parseWith, parseAt, hcompile, ofText_eq_map_ofText]
  rfl

/-- **Folding never affects what is accepted.** Reading with and without folding fail with the same
error, or both succeed with trees of the same shape, in which the calls correspond, with the same
shapes in the arguments of each, and so on inside them. -/
theorem parseWith_optimize_agree (env : Env) (options : Options) (text : List Char) :
    (∃ error : Error,
      parseWith env { options with optimize := true } text =
        (.error error : Except Error (ArgTree Expr)) ∧
      parseWith env { options with optimize := false } text =
        (.error error : Except Error (ArgTree Expr))) ∨
    ∃ folded plain : ArgTree Expr,
      parseWith env { options with optimize := true } text = .ok folded ∧
      parseWith env { options with optimize := false } text = .ok plain ∧
      folded.shape = plain.shape ∧ folded.map Expr.calls = plain.map Expr.calls := by
  have hsettled := parseWith_settled env options text
  cases hplain : (parseWith env { options with optimize := false } text :
      Except Error (ArgTree Expr)) with
  | error error =>
    rw [hplain] at hsettled
    exact .inl ⟨error, hsettled, rfl⟩
  | ok plain =>
    rw [hplain] at hsettled
    refine .inr ⟨_, plain, hsettled, rfl, ?_, ?_⟩
    · rw [shape, map_map, shape]
    · rw [map_map]
      exact map_congr fun e _ => Expr.gathers_calls.settled e

end ArgTree

end GridFormula
