import GridFormula.Proofs.Wording

/-!
# Literals of constants

A constant is written as its literal, and the literal compiles to the constant again: the sign of a
negative number is folded back into it, and the items of a sequence are gathered.

This needs every number of the constant to be finite. Numerals go beyond the largest number, and so
does arithmetic, so there are constants with infinite numbers in them and with numbers without
value. What is written for these is read as a name, and then nothing folds.

## Main results

* `Expr.exists_raw`: a compiled expression by what it is before folding.
* `Expr.compile_literal`: what the literal of a constant compiles to.
-/

namespace GridFormula.Expr

variable {env : Env} {text : List Char}

/-- A compiled expression is what is read **without folding**, settled. -/
theorem exists_raw {options : Options} (h : options.expandTemplates = false) {e : Expr}
    (hcompile : compile env options text = .ok e) :
    ∃ r, compile env { options with optimize := false } text = .ok r ∧
      r.Everywhere (AsRead env.grid) ∧ e = r.settled options.optimize := by
  obtain ⟨r, hreads, hlimit, rfl⟩ := (compile_eq_ok_iff h).1 hcompile
  have hexpand : { options with optimize := false : Options }.expandTemplates = false := h
  exact ⟨r, (compile_eq_ok_iff hexpand).2 ⟨r, hreads, hlimit, (settled_false r).symm⟩,
    everywhere_of_reads hreads, rfl⟩

/-- The wording of a value settles on a constant exactly when the value is finite, and then on the
value. -/
theorem settled_worded (value : Value) :
    ((value.worded.settled true).isConstant = true ↔ value.isFinite = true) ∧
      (value.isFinite = true → value.worded.settled true = .literal value) := by
  have hsettled : value.worded.settled true = value.worded.fold.1 := by
    rw [settled, within_worded]
    rfl
  have hfinite (h : value.isFinite = true) : value.worded.settled true = .literal value := by
    rw [hsettled, worded_of_isFinite h, fold_unfolded]
  refine ⟨⟨fun hconstant => ?_, fun h => by rw [hfinite h]; rfl⟩, hfinite⟩
  rw [hsettled, isConstant_fold_iff] at hconstant
  exact (static_worded_iff value).1 hconstant.1

/-- The **literal of a constant compiles**, when the text that the constant was compiled from leaves
a level of nesting. It compiles to the constant if all its numbers are finite, and to no constant at
all otherwise. -/
theorem compile_literal {value : Value} (hcompile : compile env {} text = .ok (.literal value))
    (hnesting : ∀ r, compile env { optimize := false } text = .ok r → r.nesting < nestingLimit) :
    ∃ e, compile env {} value.literal = .ok e ∧
      (e.isConstant = true ↔ value.isFinite = true) ∧
      (value.isFinite = true → e = .literal value) := by
  obtain ⟨r, hraw, hread, hsettled⟩ := exists_raw rfl hcompile
  have hreads : Reads env.grid value.literal value.worded :=
    reads_worded (everywhere_literal.2 trivial) (everywhere_literal.2 trivial)
  have hdeepens := nesting_unfolded_le (hread.mono fun _ => AsRead.primitive) true
  have hlimit : value.worded.nesting ≤ nestingLimit := by
    rw [nesting_worded_value]
    rw [← hsettled] at hdeepens
    exact Nat.le_trans hdeepens (hnesting r hraw)
  exact ⟨_, (compile_eq_ok_iff rfl).2 ⟨_, hreads, hlimit, rfl⟩, settled_worded value⟩

/-- The constant in `[-(0),"a"]` is written as `[-0,"a"]`, and its zero keeps the sign. -/
theorem compile_literal_negative_zero :
    compile ⟨⟨9, 9⟩, .empty⟩ {} (Value.sequence [.number (.signed true .zero), .text "a"]).literal =
      .ok (.literal (.sequence [.number (.signed true .zero), .text "a"])) := by
  have hcompile : compile ⟨⟨9, 9⟩, .empty⟩ {} ['[', '-', '(', '0', ')', ',', '"', 'a', '"', ']'] =
      .ok (.literal (.sequence [.number (.signed true .zero), .text "a"])) := by cbv
  have hunfolded : compile ⟨⟨9, 9⟩, .empty⟩ { optimize := false }
      ['[', '-', '(', '0', ')', ',', '"', 'a', '"', ']'] =
        .ok (.sequence
          [.unary .negate (.paren (.literal (.number .zero))), .literal (.text "a")]) := by
    cbv
  have hnesting : ∀ r, compile ⟨⟨9, 9⟩, .empty⟩ { optimize := false }
      ['[', '-', '(', '0', ')', ',', '"', 'a', '"', ']'] = .ok r → r.nesting < nestingLimit := by
    intro r hr
    rw [hunfolded] at hr
    cases hr
    decide
  obtain ⟨e, he, -, heq⟩ := compile_literal hcompile hnesting
  rw [he, heq (by decide)]

/-- The literal of an infinite number is **not** that number: `1e400` is written as the name
`inf`. -/
theorem compile_literal_infinite :
    compile ⟨⟨9, 9⟩, .empty⟩ {} ['1', 'e', '4', '0', '0'] =
        .ok (.literal (.number (.signed false .infinity))) ∧
      compile ⟨⟨9, 9⟩, .empty⟩ {} (Value.number (.signed false .infinity)).literal =
        .ok (.name "inf") :=
  ⟨by cbv, by cbv⟩

end GridFormula.Expr
