import GridFormula.Expr.Equality
import GridFormula.Proofs.Printing

/-!
# The round trip

A compiled expression is written out as a text that compiles to it again. Its text reads as the
expression with its literals unfolded, which settles as the expression, because that is what an
expression settled on before.

Unfolding takes a level of nesting at most: the sign of a negative number that folding put into a
sequence. So there has to be a level left.

## Main results

* `Expr.equals_self`: an expression of finite numbers is equal to itself.
* `Expr.compile_text`: the text of a compiled expression compiles to the expression.
-/

namespace GridFormula

/-! ### Equality -/

theorem Number.equals_self {n : Number} (h : n.isFinite = true) : n.equals n = true := by
  cases n with
  | nan => cases h
  | signed negative m => simp [Number.equals, Number.compare?, Std.ReflCmp.compare_self]

theorem Value.equals_self {value : Value} (h : value.isFinite = true) :
    value.equals value = true := by
  induction value with
  | null => rfl
  | bool b => simp [Value.equals]
  | number n => exact Number.equals_self h
  | text s => simp [Value.equals]
  | sequence items ih =>
    rw [Value.isFinite_sequence] at h
    rw [Value.equals]
    induction items with
    | nil => rfl
    | cons item others ihothers =>
      obtain ⟨hitem, hothers⟩ := List.forall_mem_cons.1 h
      rw [Value.allEqual, ih item (by simp) hitem,
        ihothers (fun item hitem => ih item (by simp [hitem])) hothers]
      rfl

namespace Expr

theorem itemsEqual_self {items : List Expr} (h : ∀ item ∈ items, item.equals item = true) :
    itemsEqual items items = true := by
  induction items with
  | nil => rfl
  | cons item others ih =>
    obtain ⟨hitem, hothers⟩ := List.forall_mem_cons.1 h
    rw [itemsEqual, hitem, ih hothers]
    rfl

theorem argumentsEqual_self {arguments : ArgTree Expr}
    (h : ∀ e ∈ arguments.expressions, e.equals e = true) :
    argumentsEqual arguments arguments = true := by
  induction arguments with
  | omitted => rfl
  | leaf e => exact h e (by simp)
  | group level slots ih =>
    have hslots : slotsEqual slots slots = true := by
      induction slots with
      | nil => rfl
      | cons slot others ihothers =>
        simp only [ArgTree.expressions_group, List.flatMap_cons, List.mem_append] at h
        rw [slotsEqual, ih slot (by simp) fun e he => h e (.inl he),
          ihothers (fun slot hslot => ih slot (by simp [hslot]))
            fun e he => h e (.inr (by simpa using he))]
        rfl
    simp [argumentsEqual, hslots]

/-- An expression of finite numbers is **equal to itself**. -/
theorem equals_self {e : Expr} (h : e.Everywhere Writable) : e.equals e = true := by
  induction e with
  | literal value => exact Value.equals_self h.self
  | name | field | cell => simp [equals]
  | currentRow => rfl
  | sequence items ih =>
    rw [everywhere_sequence] at h
    exact itemsEqual_self fun item hitem => ih item hitem (h.2 item hitem)
  | paren inner ih =>
    rw [everywhere_paren] at h
    exact ih h.2
  | call function arguments ih =>
    rw [everywhere_call] at h
    simp [equals, argumentsEqual_self fun e he => ih e he (h.2 e he)]
  | member target n ih =>
    rw [everywhere_member] at h
    simp [equals, ih h.2]
  | memberCall target n arguments ih iharguments =>
    rw [everywhere_memberCall] at h
    simp [equals, ih h.2.1, argumentsEqual_self fun e he => iharguments e he (h.2.2 e he)]
  | unary op operand ih =>
    rw [everywhere_unary] at h
    simp [equals, ih h.2]
  | binary op left right ihl ihr =>
    rw [everywhere_binary] at h
    simp [equals, ihl h.2.1, ihr h.2.2]

/-! ### Compiling the text of an expression -/

theorem Everywhere.mono {P Q : Expr → Prop} {e : Expr} (h : e.Everywhere P)
    (himp : ∀ node, P node → Q node) : e.Everywhere Q :=
  fun node hnode => himp node (h node hnode)

variable {env : Env} {options : Options}

/-- **The text of a compiled expression compiles to the expression.** The text that it was compiled
from has to leave a level of nesting, as its unfolded form shows, and the nodes of the expression
have to be writable. -/
theorem compile_text (h : options.expandTemplates = false) {text : List Char} {e : Expr}
    (hcompile : compile env options text = .ok e)
    (hnesting : ∀ r, compile env { options with optimize := false } text = .ok r →
      r.nesting < nestingLimit)
    (hwritable : ∀ node ∈ e.nodes, node.Writable) :
    compile env options e.text = .ok e ∧ e.equals e = true := by
  obtain ⟨r, hreads, hlimit, rfl⟩ := (compile_eq_ok_iff h).1 hcompile
  have hread := everywhere_of_reads hreads
  have hform : r.Everywhere (WellFormed env.grid) := hread.mono fun _ => AsRead.wellFormed
  have hprimitive : r.Everywhere Primitive := hread.mono fun _ => AsRead.primitive
  have hexpand : { options with optimize := false : Options }.expandTemplates = false := h
  have hraw : compile env { options with optimize := false } text = .ok r :=
    (compile_eq_ok_iff hexpand).2 ⟨r, hreads, hlimit, (settled_false r).symm⟩
  refine ⟨(compile_eq_ok_iff h).2 ⟨(r.settled options.optimize).unfolded, ?_, ?_, ?_⟩,
    equals_self hwritable⟩
  · exact reads_text (everywhere_settled hform options.optimize) hwritable
  · exact Nat.le_trans (nesting_unfolded_le hprimitive options.optimize) (hnesting r hraw)
  · exact (settled_unfolded hprimitive options.optimize).symm

/-- The texts in `f(;"a"&"b")` are joined when it is compiled, and it is written as `f(;"ab")`. -/
theorem compile_text_call :
    compile ⟨⟨9, 9⟩, .empty⟩ {} ['f', '(', ';', '"', 'a', 'b', '"', ')'] =
      .ok (.call "f" (.group .semicolon [.omitted, .leaf (.literal (.text "ab"))])) := by
  have hunfolded : compile ⟨⟨9, 9⟩, .empty⟩ { optimize := false }
      ['f', '(', ';', '"', 'a', '"', '&', '"', 'b', '"', ')'] =
        .ok (.call "f" (.group .semicolon
          [.omitted, .leaf (.binary .concat (.literal (.text "a")) (.literal (.text "b")))])) := by
    cbv
  obtain ⟨r, hreads, hlimit, hr⟩ := (compile_eq_ok_iff rfl).1 hunfolded
  rw [settled_false] at hr
  subst hr
  have hcompile : compile ⟨⟨9, 9⟩, .empty⟩ {}
      ['f', '(', ';', '"', 'a', '"', '&', '"', 'b', '"', ')'] =
        .ok (.call "f" (.group .semicolon [.omitted, .leaf (.literal (.text "ab"))])) :=
    (compile_eq_ok_iff rfl).2 ⟨_, hreads, hlimit, by cbv⟩
  have hnesting : ∀ r, compile ⟨⟨9, 9⟩, .empty⟩ { optimize := false }
      ['f', '(', ';', '"', 'a', '"', '&', '"', 'b', '"', ')'] = .ok r →
        r.nesting < nestingLimit := by
    intro r hr
    rw [hunfolded] at hr
    cases hr
    decide
  have hwritable : ∀ node ∈ (call "f" (.group .semicolon
      [.omitted, .leaf (.literal (.text "ab"))])).nodes, node.Writable := by
    simp [nodes, argumentsNodes, slotsNodes, Writable, Value.isFinite]
  exact (compile_text rfl hcompile hnesting hwritable).1

end Expr

end GridFormula
