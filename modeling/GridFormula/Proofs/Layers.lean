import GridFormula.ArgTree.Path
import GridFormula.Proofs.Joining
import GridFormula.Proofs.Parts
import GridFormula.Proofs.RoundTrip
import Mathlib.Logic.Relation

/-!
# Layers of groups

In a tree of arguments that is read from a text, a group stands only in groups of coarser levels,
and it has two slots or more. The levels with separators are three, so no more than three groups
stand in one another.

Optimizing is done in place, at any node of a tree and as often as one likes. It changes what is at
the leaves and nothing else, so the layers stay. The invariant goes with a property of the leaves
that folding keeps, because the calls in an expression hold argument trees of their own.

## Main definitions

* `ArgTree.Layered`: the invariant.
* `ArgTree.Regular`: what it says of the groups at the ends of paths.
* `ArgTree.OptimizeStep`: optimizing at one node.
* `ArgTree.Reached`: the trees that a text leads to, with those in its calls.

## Main results

* `ArgTree.Layered.optimizeSteps`: optimizing keeps layers, however often it is done.
* `ArgTree.Layered.regular`: a layered tree is regular.
* `ArgTree.Reached.layered`: what a text leads to is layered.
* `ArgTree.regular_of_parseAt`: so all these trees are regular, and what is compiled for them has no
  separator at its top.
-/

namespace GridFormula

namespace ArgTree

variable {ε κ : Type} {P : ε → Prop} {above : Level} {tree : ArgTree ε}

/-! ### Layered trees -/

/-- A tree is **layered** below a level when each group has two slots or more and is of a finer
level than what it stands in, and all leaves have some property. -/
inductive Layered (P : ε → Prop) : Level → ArgTree ε → Prop
  /-- An omitted argument. -/
  | omitted {above : Level} : Layered P above .omitted
  /-- A leaf with the property. -/
  | leaf {above : Level} {e : ε} : P e → Layered P above (.leaf e)
  /-- A group of a finer level. -/
  | group {above level : Level} {slots : List (ArgTree ε)} : above.depth < level.depth →
      2 ≤ slots.length → (∀ slot ∈ slots, Layered P level slot) → Layered P above (.group level slots)

/-- A graded tree is **layered** below any level that is coarser than those it is graded by. -/
theorem Graded.layered {levels : List Level} (h : Graded levels tree)
    (hlevels : levels.Pairwise fun coarse fine => coarse.depth < fine.depth)
    (habove : ∀ level ∈ levels, above.depth < level.depth) (hleaves : ∀ e ∈ tree.expressions, P e) :
    Layered P above tree := by
  induction h generalizing above with
  | omitted => exact .omitted
  | leaf e => exact .leaf (hleaves e (by simp))
  | finer _ ih =>
    exact ih hlevels.of_cons (fun level hlevel => habove level (List.mem_cons_of_mem _ hlevel)) hleaves
  | group _ hlength _ ih =>
    have hrest := List.pairwise_cons.1 hlevels
    refine .group (habove _ List.mem_cons_self) hlength fun slot hslot => ?_
    exact ih slot hslot hrest.2 hrest.1
      fun e he => hleaves e (mem_expressions_of_mem_slots hslot he)

/-- Graded by the levels that have separators, a tree is layered below the level of a whole text. -/
theorem Graded.layered_top (h : Graded [.semicolon, .comma, .colon] tree)
    (hleaves : ∀ e ∈ tree.expressions, P e) : Layered P .top tree :=
  h.layered (by decide) (by decide) hleaves

theorem Layered.expressions (h : Layered P above tree) : ∀ e ∈ tree.expressions, P e := by
  induction h with
  | omitted => nofun
  | leaf he => simpa using he
  | group _ _ _ ih =>
    rw [expressions_group, List.forall_mem_flatMap]
    exact ih

/-! ### Optimizing in place -/

theorem Layered.map {f : ε → ε} (hf : ∀ e, P e → P (f e)) (h : Layered P above tree) :
    Layered P above (tree.map f) := by
  induction h with
  | omitted => exact .omitted
  | leaf he => exact .leaf (hf _ he)
  | group hlevel hlength _ ih =>
    rw [ArgTree.map, mapSlots_eq_map]
    exact .group hlevel (by rwa [List.length_map]) (List.forall_mem_map.2 ih)

/-- Optimizing a tree keeps its layers, and at the leaves what folding keeps. -/
theorem Layered.optimize [Leaf ε κ] (hfold : ∀ e, P e → P (Leaf.optimize e).1)
    (h : Layered P above tree) : Layered P above tree.optimize.1 := by
  rw [optimize_fst]
  exact h.map hfold

/-- What keeps the layers of every tree keeps those of a tree in which it is **done at one node**.
-/
theorem Layered.modifyAt? {α : Type} {f : ArgTree ε → ArgTree ε × α}
    (hf : ∀ {above tree}, Layered P above tree → Layered P above (f tree).1) {path : List Nat}
    {tree' : ArgTree ε} {answer : α} (h : Layered P above tree)
    (hmodify : tree.modifyAt? f path = some (tree', answer)) : Layered P above tree' := by
  induction path generalizing above tree tree' with
  | nil =>
    have htree : tree' = (f tree).1 := by
      cases h with
      | omitted => cases hmodify
      | leaf | group => exact congrArg Prod.fst (Option.some.inj hmodify).symm
    rw [htree]
    exact hf h
  | cons index path ih =>
    cases h with
    | omitted => cases hmodify
    | leaf => cases hmodify
    | @group _ level slots hlevel hlength hslots =>
      obtain ⟨slot, hslot, hmodify⟩ := Option.bind_eq_some_iff.1 hmodify
      obtain ⟨⟨changed, _⟩, hchanged, heq⟩ := Option.bind_eq_some_iff.1 hmodify
      cases heq
      refine .group hlevel (by rwa [List.length_set]) fun other hother => ?_
      rcases List.mem_or_eq_of_mem_set hother with hother | rfl
      · exact hslots other hother
      · exact ih (hslots slot (List.mem_of_getElem? hslot)) hchanged

/-- **Optimizing at one node** makes the second tree of the first. -/
def OptimizeStep [Leaf ε κ] (tree tree' : ArgTree ε) : Prop :=
  ∃ path constant, tree.modifyAt? ArgTree.optimize path = some (tree', constant)

theorem Layered.optimizeStep [Leaf ε κ] (hfold : ∀ e, P e → P (Leaf.optimize e).1)
    {tree' : ArgTree ε} (h : Layered P above tree) (hstep : OptimizeStep tree tree') :
    Layered P above tree' := by
  obtain ⟨path, constant, hmodify⟩ := hstep
  exact h.modifyAt? (Layered.optimize hfold) hmodify

/-- Optimizing at some nodes, one after the other, keeps the layers of a tree. -/
theorem Layered.optimizeSteps [Leaf ε κ] (hfold : ∀ e, P e → P (Leaf.optimize e).1)
    {tree' : ArgTree ε} (h : Layered P above tree)
    (hsteps : Relation.ReflTransGen OptimizeStep tree tree') : Layered P above tree' := by
  induction hsteps with
  | refl => exact h
  | tail _ hstep ih => exact ih.optimizeStep hfold hstep

/-! ### Groups at the ends of paths -/

theorem depth_le (level : Level) : level.depth ≤ 3 := by
  cases level <;> decide

/-- A tree is **regular** when the groups in it are as the separators of a text set them apart. -/
structure Regular (tree : ArgTree ε) : Prop where
  /-- A group has a separator, and two slots or more. -/
  group : ∀ path level slots, tree.descend path = .ok (.group level slots) →
    level.separator?.isSome = true ∧ 2 ≤ slots.length
  /-- A group in a slot of another one is of a finer level. -/
  finer : ∀ path level slots, tree.descend path = .ok (.group level slots) →
    ∀ level' slots', .group level' slots' ∈ slots → level.depth < level'.depth
  /-- What a colon sets apart are single expressions and omitted arguments. -/
  colon : ∀ path slots, tree.descend path = .ok (.group .colon slots) →
    ∀ slot ∈ slots, slot.isLeaf = true ∨ slot.isOmitted = true
  /-- A group stands in two others at most. -/
  length_path : ∀ path level slots, tree.descend path = .ok (.group level slots) → path.length < 3

/-- Each step of a path into a layered tree leads to a finer level at least. -/
theorem Layered.of_descend {path : List Nat} {level : Level} {slots : List (ArgTree ε)}
    (h : Layered P above tree) (hpath : tree.descend path = .ok (.group level slots)) :
    above.depth + path.length < level.depth ∧ 2 ≤ slots.length ∧
      ∀ slot ∈ slots, Layered P level slot := by
  induction path generalizing above tree with
  | nil =>
    cases hpath
    cases h with
    | group hlevel hlength hslots => exact ⟨hlevel, hlength, hslots⟩
  | cons index path ih =>
    rw [descend_cons] at hpath
    cases h with
    | omitted =>
      -- below an omitted argument everything is omitted
      obtain ⟨hnone, -⟩ : level.depth + path.length < level.depth ∧ _ := ih .omitted hpath
      omega
    | leaf => cases hpath
    | @group _ own others hlevel _ hothers =>
      rw [child] at hpath
      split at hpath
      · next slot hslot =>
        obtain ⟨hdepth, hrest⟩ := ih (hothers slot (List.mem_of_getElem? hslot)) hpath
        refine ⟨?_, hrest⟩
        rw [List.length_cons]
        omega
      · cases hpath

/-- A layered tree is **regular**. -/
theorem Layered.regular (h : Layered P above tree) : tree.Regular where
  group path level slots hpath := by
    obtain ⟨hdepth, hlength, -⟩ := h.of_descend hpath
    refine ⟨?_, hlength⟩
    cases level with
    | top => exact absurd hdepth (Nat.not_lt_zero _)
    | semicolon | comma | colon => rfl
  finer path level slots hpath level' slots' hslot := by
    obtain ⟨-, -, hslots⟩ := h.of_descend hpath
    cases hslots _ hslot with
    | group hlevel => exact hlevel
  colon path slots hpath slot hslot := by
    obtain ⟨-, -, hslots⟩ := h.of_descend hpath
    cases hslots slot hslot with
    | omitted => exact .inr rfl
    | leaf => exact .inl rfl
    | @group _ level _ hlevel => exact absurd hlevel (Nat.not_lt.2 (depth_le level))
  length_path path level slots hpath := by
    obtain ⟨hdepth, -⟩ := h.of_descend hpath
    have hle := depth_le level
    omega

/-! ### Trees that are read -/

/-- What is true of all that a function gives is true of what a traversal by it puts at the leaves.
-/
theorem forall_expressions_of_traverse {φ : Type} {f : φ → Except Error ε} {P : ε → Prop}
    (hf : ∀ a e, f a = .ok e → P e) {source : ArgTree φ} {tree : ArgTree ε}
    (h : traverse f source = .ok tree) : ∀ e ∈ tree.expressions, P e :=
  have hboth := (forall₂_of_traverse h).flip.imp fun e a he => And.intro (hf a e he) he
  ((List.forall₂_and_left _ _).1 hboth).1

/-- A tree that is built from a text is **layered**, and at its leaves is what pieces of text give.
-/
theorem layered_of_ofText {compile : List Char → Except Error ε}
    (hcompile : ∀ piece e, compile piece = .ok e → P e) {text : List Char}
    (h : ofText compile text = .ok tree) : Layered P .top tree :=
  (graded_of_ofText h).layered_top (forall_expressions_of_traverse hcompile (ofText_eq_ok_iff.1 h))

/-- The pieces of text that become leaves are **undivided**. -/
theorem undivided_of_mem_outline {text : List Char} {piece : LeafText}
    (h : piece ∈ (outline text).expressions) : Scan.Undivided piece.text := by
  have hleaf : piece.text ∈ (fullSplit text).expressions := by
    rw [← map_text_outline]
    exact mem_expressions_map LeafText.text h
  exact (isPart_of_mem_fullSplit hleaf).1.undivided

/-- Nothing is compiled but the pieces of the outline. -/
theorem ofText_congr {compile compile' : List Char → Except Error ε} {text : List Char}
    (h : ∀ piece ∈ (outline text).expressions, compile piece.text = compile' piece.text) :
    ofText compile text = ofText compile' text := by
  rw [ofText_eq_traverse, ofText_eq_traverse]
  refine traverse_congr fun piece hpiece => ?_
  rw [compilePiece, compilePiece, h piece hpiece]

end ArgTree

/-! ### Trees of expressions -/

namespace Expr

/-- What compiles is **well-formed everywhere**. -/
theorem everywhere_of_compileAt {env : Env} {options : Options} {depth : Nat} {text : List Char}
    {e : Expr} (h : compileAt env options depth text = .ok e) :
    e.Everywhere (WellFormed env.grid) := by
  obtain ⟨source, hread⟩ :
      ∃ source, readAt env.grid options.optimize (nestingLimit - depth) source = .ok e := by
    unfold compileAt at h
    split at h
    · obtain ⟨source, -, hread⟩ := exists_of_bind h
      exact ⟨source, hread⟩
    · exact ⟨text, h⟩
  obtain ⟨r, hreads, -, rfl⟩ := readAt_eq_ok_iff.1 hread
  exact everywhere_settled ((everywhere_of_reads hreads).mono fun _ => AsRead.wellFormed) _

theorem everywhere_optimize {grid : Grid} {e : Expr} (h : e.Everywhere (WellFormed grid)) :
    e.optimize.1.Everywhere (WellFormed grid) :=
  everywhere_fold h

/-- The arguments of a well-formed call are graded. -/
theorem WellFormed.graded {grid : Grid} {node : Expr} (h : WellFormed grid node)
    {arguments : ArgTree Expr} (harguments : node.arguments? = some arguments) :
    arguments.Graded [.semicolon, .comma, .colon] := by
  cases node <;> cases harguments
  case call => exact h.2
  case memberCall => exact h.2.2

end Expr

namespace ArgTree

/-- The trees that can be **reached** from a text: the tree that is read from it, that tree after
optimizing at some of its nodes, the arguments of the calls in its leaves, and so on. -/
inductive Reached (env : Env) (text : List Char) : ArgTree Expr → Prop
  /-- Reading the text, with whatever options. -/
  | read {options : Options} {depth : Nat} {tree : ArgTree Expr} :
      parseAt env options depth text = .ok tree → Reached env text tree
  /-- Optimizing at one node. -/
  | optimize {tree tree' : ArgTree Expr} :
      Reached env text tree → OptimizeStep tree tree' → Reached env text tree'
  /-- Going to the arguments of a call. -/
  | arguments {tree arguments : ArgTree Expr} {e node : Expr} : Reached env text tree →
      e ∈ tree.expressions → node ∈ e.nodes → node.arguments? = some arguments →
        Reached env text arguments

/-- What is reached is **layered**, with well-formed expressions at the leaves. -/
theorem Reached.layered {env : Env} {text : List Char} {tree : ArgTree Expr}
    (h : Reached env text tree) :
    Layered (fun e => e.Everywhere (Expr.WellFormed env.grid)) .top tree := by
  induction h with
  | read hparse =>
    exact layered_of_ofText (fun piece e => Expr.everywhere_of_compileAt) hparse
  | optimize _ hstep ih =>
    exact ih.optimizeStep (fun e => Expr.everywhere_optimize) hstep
  | arguments _ he hnode harguments ih =>
    have hwhole := (ih.expressions _ he).of_mem_nodes hnode
    refine (hwhole.self.graded harguments).layered_top fun e he => hwhole.of_mem_nodes ?_
    exact Expr.mem_nodes_of_mem_parts (Expr.mem_parts_of_arguments? harguments he)
      (Expr.mem_nodes_self _)

/-- **Trees are regular.** Whatever expressions are, a tree that is read from a text is regular, and
it stays so however often one optimizes at its nodes. In a tree of expressions, so are the arguments
of all calls. What is compiled on the way has no separator at its top. -/
theorem regular_of_parseAt (text : List Char) :
    (∀ {ε κ : Type} [Leaf ε κ] (env : Env) (options : Options) (depth : Nat)
      (tree tree' : ArgTree ε), parseAt env options depth text = .ok tree →
        Relation.ReflTransGen OptimizeStep tree tree' → tree'.Regular) ∧
    (∀ (env : Env) (tree : ArgTree Expr), Reached env text tree → tree.Regular) ∧
    (∀ piece ∈ (outline text).expressions, Scan.Undivided piece.text) ∧
    ∀ {ε : Type} (compile compile' : List Char → Except Error ε),
      (∀ piece ∈ (outline text).expressions, compile piece.text = compile' piece.text) →
        ofText compile text = ofText compile' text := by
  refine ⟨?_, fun env tree h => h.layered.regular, fun piece => undivided_of_mem_outline,
    fun compile compile' => ofText_congr⟩
  intro ε κ _ env options depth tree tree' hparse hsteps
  have hlayered : Layered (fun _ => True) .top tree :=
    layered_of_ofText (fun _ _ _ => trivial) hparse
  exact (hlayered.optimizeSteps (fun _ => id) hsteps).regular

/-- In `f(a:b,c);"1"&"2"` the last leaf is folded, and the call has arguments of its own. -/
theorem regular_of_folded_leaf :
    (group .semicolon [.leaf (.call "f" (.group .comma
        [.group .colon [.leaf (.name "a"), .leaf (.name "b")], .leaf (.name "c")])),
      .leaf (.literal (.text "12"))] : ArgTree Expr).Regular ∧
    (group .comma [.group .colon [.leaf (.name "a"), .leaf (.name "b")], .leaf (.name "c")] :
      ArgTree Expr).Regular := by
  have hparse : parseAt ⟨⟨9, 9⟩, .empty⟩ { optimize := false } 0
      ['f', '(', 'a', ':', 'b', ',', 'c', ')', ';', '"', '1', '"', '&', '"', '2', '"'] =
        (.ok (group .semicolon [.leaf (.call "f" (.group .comma
          [.group .colon [.leaf (.name "a"), .leaf (.name "b")], .leaf (.name "c")])),
          .leaf (.binary .concat (.literal (.text "1")) (.literal (.text "2")))]) :
            Except Error (ArgTree Expr)) := by cbv
  have hstep : OptimizeStep
      (group .semicolon [.leaf (.call "f" (.group .comma
        [.group .colon [.leaf (.name "a"), .leaf (.name "b")], .leaf (.name "c")])),
        .leaf (.binary .concat (.literal (.text "1")) (.literal (.text "2")))] : ArgTree Expr)
      (group .semicolon [.leaf (.call "f" (.group .comma
        [.group .colon [.leaf (.name "a"), .leaf (.name "b")], .leaf (.name "c")])),
        .leaf (.literal (.text "12"))]) := ⟨[1], true, by cbv⟩
  have hregular := regular_of_parseAt
    ['f', '(', 'a', ':', 'b', ',', 'c', ')', ';', '"', '1', '"', '&', '"', '2', '"']
  refine ⟨hregular.1 _ _ _ _ _ hparse (.single hstep), hregular.2.1 ⟨⟨9, 9⟩, .empty⟩ _ ?_⟩
  exact .arguments (.optimize (.read hparse) hstep) List.mem_cons_self (Expr.mem_nodes_self _) rfl

end ArgTree

end GridFormula
