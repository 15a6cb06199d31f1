import GridFormula.Proofs.Acceptance
import GridFormula.Proofs.Literals
import GridFormula.Proofs.Safety
import GridFormula.Proofs.Unlimited

/-!
# The depth of printed trees

Folding takes parentheses, operators and their operands away, and puts literals in their place. So
what is written of an expression is mostly less deep than what it was read from. The exception is a
negative number: its sign is an operator of its own, with a level of nesting, and where subtraction
made the number no such level was there before.

So the text of a tree can be refused for its nesting although the tree was read, and for nothing
else. It is refused when it is as deep as the limit allows and gets one level deeper by such a sign.
That takes folding, and a source that leaves no level: without folding, or where one level was left,
the text is read.

## Main results

* `Expr.compile_of_tooDeep`: a formula that nests too deep is refused for that.
* `ArgTree.parseWith_text_cases`: the text of a tree is read, or the text of one of its leaves is
  not.
* `ArgTree.parseWith_text_tooDeep_iff`: when the text of a tree is refused.
-/

namespace GridFormula

open Text (byteLength)

namespace Expr

variable {env : Env} {options : Options}

/-- A formula that nests **too deep** is refused for that and nothing else. -/
theorem compile_of_tooDeep (h : options.expandTemplates = false) {text : List Char} {r : Expr}
    (hreads : Reads env.grid text r) (hlength : byteLength text ≤ maxPosition)
    (hdeep : nestingLimit < r.nesting) :
    ∃ span, compile env options text = .error (.ofFault .nestingTooDeep span) := by
  obtain ⟨openers, hformula⟩ := reads_iff_isFormula.1 hreads
  have hplain := readAt_of_formula hformula hlength nestingLimit
  have hcompile : compile env options text =
      readAt env.grid options.optimize nestingLimit text := by
    rw [compile, compileAt, h]
    rfl
  have hopener : ¬ ∀ opener ∈ openers, opener.level ≤ nestingLimit := by
    rw [← hformula.nesting_le_iff hlength]
    exact Nat.not_le.2 hdeep
  have hfound : ∃ opener,
      (openers.find? fun opener => nestingLimit < opener.level) = some opener := by
    rw [← Option.ne_none_iff_exists']
    simpa using hopener
  obtain ⟨opener, hopener⟩ := hfound
  rw [limited, hopener] at hplain
  refine ⟨opener.span 0, ?_⟩
  rw [hcompile]
  cases options.optimize with
  | false => exact hplain
  | true =>
    rw [readAt_settled, hplain]
    rfl

theorem reads_trim {grid : Grid} {text : List Char} {r : Expr} :
    Reads grid (Text.trim text) r ↔ Reads grid text r := by
  simp only [Reads, spelled_padded (Text.padded_trim text)]

end Expr

namespace ArgTree

open GridFormula.Expr

variable {env : Env} {options : Options}

/-- The text of a tree is **read**, or the text of one of its leaves is not, and that decides the
error. -/
theorem parseWith_text_cases (h : options.expandTemplates = false) {tree : ArgTree Expr}
    (hgraded : Graded [.semicolon, .comma, .colon] tree)
    (harguments : ∀ e ∈ tree.expressions, IsArgument e.text) :
    ((∃ tree' : ArgTree Expr, parseWith env options (tree.text Expr.text) = .ok tree') ∧
        ∀ e ∈ tree.expressions, ∃ e', Expr.compile env options e.text = .ok e') ∨
      ∃ e ∈ tree.expressions, ∃ piece : LeafText, piece.In (tree.text Expr.text) ∧
        piece.text = Text.trim e.text ∧
        ∃ error, Expr.compile env options piece.text = .error error ∧
          parseWith env options (tree.text Expr.text) =
            (.error (error.shift piece.offset) : Except Error (ArgTree Expr)) := by
  have hmap := congrArg expressions (map_text_outline (tree.text Expr.text))
  rw [fullSplit_text hgraded harguments, expressions_map, expressions_map] at hmap
  have htraverse : parseWith env options (tree.text Expr.text) =
      (outline (tree.text Expr.text)).traverse (compilePiece (Expr.compile env options)) :=
    ofText_eq_traverse _ _
  have hpieces : ∀ piece ∈ (outline (tree.text Expr.text)).expressions,
      ∃ e ∈ tree.expressions, piece.text = Text.trim e.text := by
    intro piece hpiece
    have hmem := List.mem_map_of_mem (f := LeafText.text) hpiece
    rw [hmap] at hmem
    obtain ⟨e, he, heq⟩ := List.mem_map.1 hmem
    exact ⟨e, he, heq.symm⟩
  have hleaves : ∀ e ∈ tree.expressions,
      ∃ piece ∈ (outline (tree.text Expr.text)).expressions, piece.text = Text.trim e.text := by
    intro e he
    have hmem := List.mem_map_of_mem (f := fun e => Text.trim e.text) he
    rw [← hmap] at hmem
    exact List.mem_map.1 hmem
  rw [htraverse]
  cases hresult : (outline (tree.text Expr.text)).traverse
      (compilePiece (Expr.compile env options)) with
  | ok tree' =>
    refine .inl ⟨⟨tree', rfl⟩, fun e he => ?_⟩
    obtain ⟨piece, hpiece, htext⟩ := hleaves e he
    obtain ⟨e', he'⟩ := exists_of_traverse_eq_ok hresult hpiece
    rw [compilePiece_eq_ok_iff, htext, compile_trim h] at he'
    exact ⟨e', he'⟩
  | error error =>
    obtain ⟨piece, hpiece, hfails⟩ :=
      List.exists_of_findSome?_eq_some (traverse_eq_error_iff.1 hresult)
    obtain ⟨e, he, htext⟩ := hpieces piece hpiece
    rw [failure?_eq_some_iff, compilePiece] at hfails
    cases hcompile : Expr.compile env options piece.text with
    | ok e' =>
      rw [hcompile] at hfails
      cases hfails
    | error cause =>
      rw [hcompile] at hfails
      cases hfails
      exact .inr ⟨e, he, piece, in_of_mem_outline _ piece hpiece, htext, cause, hcompile, rfl⟩

variable {text : List Char} {tree : ArgTree Expr}

/-- A tree that is read is the one that is read **without folding**, settled. -/
theorem exists_plain (hparse : parseWith env options text = .ok tree) :
    ∃ plain : ArgTree Expr, parseWith env { options with optimize := false } text = .ok plain ∧
      tree = plain.map (settled options.optimize) := by
  obtain ⟨expandTemplates, optimize⟩ := options
  cases optimize with
  | false => exact ⟨tree, hparse, (map_eq_self fun e _ => settled_false e).symm⟩
  | true =>
    have hsettled := parseWith_settled env ⟨expandTemplates, true⟩ text
    rw [hparse] at hsettled
    cases hplain : (parseWith env ⟨expandTemplates, false⟩ text : Except Error (ArgTree Expr)) with
    | error =>
      rw [hplain] at hsettled
      cases hsettled
    | ok plain =>
      rw [hplain] at hsettled
      cases hsettled
      exact ⟨plain, rfl, rfl⟩

/-- What is written of an expression of a tree **reads as its wording**. -/
theorem reads_of_mem (h : options.expandTemplates = false)
    (hparse : parseWith env options text = .ok tree) {e : Expr} (he : e ∈ tree.expressions)
    (hlegible : e.Everywhere Legible) : Reads env.grid e.text e.worded := by
  obtain ⟨piece, hpiece⟩ := exists_of_mem_expressions hparse he
  obtain ⟨r, -, hread, rfl⟩ := exists_raw h hpiece
  exact reads_worded
    (everywhere_settled (hread.mono fun _ => AsRead.wellFormed) options.optimize) hlegible

/-- Only folding makes an expression deeper than the limit allows, and only one that is as deep as
it allows. -/
theorem nesting_of_mem_plain (h : options.expandTemplates = false) {plain : ArgTree Expr}
    (hplain : parseWith env { options with optimize := false } text = .ok plain) {r : Expr}
    (hr : r ∈ plain.expressions)
    (hdeep : nestingLimit < (r.settled options.optimize).unfolded.nesting) :
    options.optimize = true ∧ r.nesting = nestingLimit := by
  obtain ⟨piece, hpiece⟩ := exists_of_mem_expressions hplain hr
  have hexpand : { options with optimize := false : Options }.expandTemplates = false := h
  obtain ⟨r', hreads, hlimit, rfl⟩ := (compile_eq_ok_iff hexpand).1 hpiece
  have hprimitive := (everywhere_of_reads hreads).mono fun _ => AsRead.primitive
  rw [settled_false] at hdeep ⊢
  have hdeepens := nesting_unfolded_le hprimitive options.optimize
  cases hoptimize : options.optimize with
  | false =>
    rw [hoptimize, settled_false, unfolded_eq_self hprimitive] at hdeep
    exact absurd hlimit (Nat.not_le.2 hdeep)
  | true => exact ⟨rfl, by omega⟩

/-- The text of a tree of legible expressions is read, or it is **too deep**: one of its expressions
is written deeper than the limit allows. -/
theorem parseWith_text_or (h : options.expandTemplates = false)
    (hparse : parseWith env options text = .ok tree)
    (hlegible : ∀ e ∈ tree.expressions, e.Everywhere Legible)
    (hlength : byteLength (tree.text Expr.text) ≤ maxPosition) :
    ((∃ tree' : ArgTree Expr, parseWith env options (tree.text Expr.text) = .ok tree') ∧
        ∀ e ∈ tree.expressions, e.unfolded.nesting ≤ nestingLimit) ∨
      (∃ span, parseWith env options (tree.text Expr.text) =
          (.error (.ofFault .nestingTooDeep span) : Except Error (ArgTree Expr))) ∧
        ∃ e ∈ tree.expressions, nestingLimit < e.unfolded.nesting := by
  have hreads := fun e he => reads_of_mem h hparse he (hlegible e he)
  rcases parseWith_text_cases h (graded_of_parseWith hparse)
      fun e he => isArgument_of_reads (hreads e he) with
    ⟨hread, hall⟩ | ⟨e, he, piece, hin, htext, error, herror, hrefused⟩
  · refine .inl ⟨hread, fun e he => ?_⟩
    obtain ⟨e', he'⟩ := hall e he
    obtain ⟨r, hr, hlimit, -⟩ := (compile_eq_ok_iff h).1 he'
    rw [← nesting_worded, reads_unique (hreads e he) hr]
    exact hlimit
  · have hpiece : Reads env.grid piece.text e.worded := by
      rw [htext, reads_trim]
      exact hreads e he
    have hdeep : nestingLimit < e.worded.nesting := by
      by_contra hle
      rw [(compile_eq_ok_iff h).2 ⟨_, hpiece, Nat.not_lt.1 hle, rfl⟩] at herror
      cases herror
    have hshort : byteLength piece.text ≤ maxPosition := by
      obtain ⟨before, behind, hwhole, -⟩ := hin
      rw [hwhole, Text.byteLength_append, Text.byteLength_append] at hlength
      omega
    obtain ⟨span, hspan⟩ := compile_of_tooDeep h hpiece hshort hdeep
    obtain rfl := Except.error.inj (herror.symm.trans hspan)
    rw [nesting_worded] at hdeep
    exact .inr ⟨⟨_, hrefused⟩, e, he, hdeep⟩

/-- The text of a tree that was read is refused for its nesting **exactly when one of its
expressions is written too deep**, and otherwise it is read. That comes from folding only, and only
where the source was as deep as the limit allows. -/
theorem parseWith_text_tooDeep_iff (h : options.expandTemplates = false)
    (hparse : parseWith env options text = .ok tree)
    (hlegible : ∀ e ∈ tree.expressions, e.Everywhere Legible)
    (hlength : byteLength (tree.text Expr.text) ≤ maxPosition) :
    ((∃ span, parseWith env options (tree.text Expr.text) =
          (.error (.ofFault .nestingTooDeep span) : Except Error (ArgTree Expr))) ↔
        ∃ e ∈ tree.expressions, nestingLimit < e.unfolded.nesting) ∧
      ((∃ tree' : ArgTree Expr, parseWith env options (tree.text Expr.text) = .ok tree') ↔
        ∀ e ∈ tree.expressions, e.unfolded.nesting ≤ nestingLimit) ∧
      ∃ plain : ArgTree Expr, parseWith env { options with optimize := false } text = .ok plain ∧
        tree = plain.map (settled options.optimize) ∧
        ∀ r ∈ plain.expressions, nestingLimit < (r.settled options.optimize).unfolded.nesting →
          options.optimize = true ∧ r.nesting = nestingLimit := by
  obtain ⟨plain, hplain, heq⟩ := exists_plain hparse
  have hsource := fun r hr => nesting_of_mem_plain h hplain (r := r) hr
  rcases parseWith_text_or h hparse hlegible hlength with
    ⟨⟨tree', hread⟩, hlow⟩ | ⟨⟨span, hrefused⟩, e, he, hdeep⟩
  · refine ⟨iff_of_false ?_ ?_, iff_of_true ⟨tree', hread⟩ hlow, plain, hplain, heq, hsource⟩
    · rintro ⟨span, hrefused⟩
      rw [hread] at hrefused
      cases hrefused
    · rintro ⟨e, he, hdeep⟩
      exact Nat.not_le.2 hdeep (hlow e he)
  · refine ⟨iff_of_true ⟨span, hrefused⟩ ⟨e, he, hdeep⟩, iff_of_false ?_ ?_, plain, hplain, heq,
      hsource⟩
    · rintro ⟨tree', hread⟩
      rw [hread] at hrefused
      cases hrefused
    · exact fun hlow => Nat.not_le.2 hdeep (hlow e he)

/-- In `[-(0)]` there are levels left, and `[-0]` is read. -/
theorem parseWith_text_negative_zero :
    ∃ tree' : ArgTree Expr, parseWith ⟨⟨9, 9⟩, .empty⟩ {}
      (ArgTree.text Expr.text (.leaf (.literal (.sequence [.number (.signed true .zero)])))) =
        .ok tree' := by
  have hparse : parseWith ⟨⟨9, 9⟩, .empty⟩ {} ['[', '-', '(', '0', ')', ']'] =
      (.ok (.leaf (.literal (.sequence [.number (.signed true .zero)]))) :
        Except Error (ArgTree Expr)) := by cbv
  have hlegible : ∀ e ∈ (leaf (literal (.sequence [.number (.signed true .zero)]))).expressions,
      e.Everywhere Legible := by
    simp [Legible]
  refine (parseWith_text_tooDeep_iff rfl hparse hlegible (by decide +kernel)).2.1.2 ?_
  simp [unfolded, Value.unfolded, Value.allUnfolded, nesting, itemsNesting, nestingLimit]

/-- The text of a tree **can be too deep**: in sixty-four brackets `1-2` is read and becomes `-1`,
whose sign is a level more. -/
theorem parseWith_text_sixty_four_brackets :
    (parseWith ⟨⟨9, 9⟩, .empty⟩ {}
        (List.replicate 64 '[' ++ (['1', '-', '2'] ++ List.replicate 64 ']'))).map
          (ArgTree.text Expr.text) =
        .ok (List.replicate 64 '[' ++ (['-', '1'] ++ List.replicate 64 ']')) ∧
      (parseWith ⟨⟨9, 9⟩, .empty⟩ {}
        (List.replicate 64 '[' ++ (['-', '1'] ++ List.replicate 64 ']'))).map
          (ArgTree.text Expr.text) = .error (.ofFault .nestingTooDeep ⟨64, 65⟩) := by
  decide +kernel

end ArgTree

end GridFormula
