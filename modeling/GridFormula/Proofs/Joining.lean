import GridFormula.Proofs.RawSplit

/-!
# Joined arguments

The text of a tree that was read can be read again. The separators are put back between the leaves,
but the blanks around them are gone, so what comes back depends on what the leaves are written as.

Expressions are closed, so their texts are found again where they were put. Of leaves that keep
their text nothing is known but how they were found: in front of a separator at the top of the scan,
with blanks around them. When the last of those blanks was escaped, the backslash in front of it
escapes the separator now. Nothing else can go wrong, and this always does.

## Main definitions

* `Scan.endsInEscape`: texts that end with a backslash that escapes what is put behind it.
* `Verbatim`: leaves that keep their text.

## Main results

* `ArgTree.fullSplit_text_fullSplit_iff`: a full split is found again in its own text exactly when
  its leaves join.
* `ArgTree.parseWith_text_of_compile`: the text of a tree of expressions is read as a tree of the
  same shape.
* `ArgTree.parseWith_text_iff_of_verbatim`: the text of a tree of verbatim leaves is read as the
  tree exactly when no leaf in front of a separator ends in an escape.
-/

namespace GridFormula

open Text (isBlank allBlank)

namespace Scan

/-! ### Escapes -/

/-- Whether a text **ends in an escape**: with a backslash that no backslash in front of it hides.
-/
def endsInEscape (text : List Char) : Bool :=
  (text.rtakeWhile fun c => c = '\\').length % 2 = 1

theorem endsInEscape_concat (text : List Char) (c : Char) :
    endsInEscape (text ++ [c]) = (!endsInEscape text && decide (c = '\\')) := by
  unfold endsInEscape
  by_cases hc : c = '\\'
  · rw [List.rtakeWhile_concat_pos _ _ _ (by simpa using hc)]
    obtain h | h := Nat.mod_two_eq_zero_or_one (text.rtakeWhile fun c => c = '\\').length <;>
      simp [hc, h, Nat.add_mod]
  · rw [List.rtakeWhile_concat_neg _ _ _ (by simpa using hc)]
    simp [hc]

namespace State

theorem escaped_step (s : State) (c : Char) :
    (s.step c).escaped = (!s.escaped && decide (c = '\\')) := by
  unfold step
  split
  · simp_all
  · split
    · simp_all
    · split
      · simp_all
      · split <;> simp_all

/-- The next character is escaped behind a text that ends in an escape, and only there. -/
theorem escaped_run {s : State} (h : s.escaped = false) (text : List Char) :
    (s.run text).escaped = endsInEscape text := by
  induction text using List.reverseRecOn with
  | nil => exact h
  | append_singleton text c ih =>
    rw [run_append, run_cons, run_nil, escaped_step, ih, endsInEscape_concat]

/-- A quotation is open at one of the marks that open quotations. -/
theorem isQuote_of_run {text : List Char} {mark : Char} (h : (top.run text).quote = some mark) :
    isQuote mark = true := by
  induction text using List.reverseRecOn generalizing mark with
  | nil => cases h
  | append_singleton text c ih =>
    rw [run_append, run_cons, run_nil] at h
    unfold step at h
    split at h
    · exact ih h
    · split at h
      · exact ih h
      · split at h
        · next mark' hmark =>
          dsimp only at h
          split at h
          · cases h
          · cases h
            exact ih hmark
        · split at h
          · next hquote =>
            cases h
            exact hquote
          · cases h

/-- Blanks leave the scan where it is, unless one of them is escaped. -/
theorem run_of_allBlank {s : State} (hescaped : s.escaped = false)
    (hquote : ∀ mark, s.quote = some mark → isQuote mark = true) {blanks : List Char}
    (h : allBlank blanks = true) : s.run blanks = s := by
  induction blanks with
  | nil => rfl
  | cons c rest ih =>
    obtain ⟨hc, hrest⟩ : isBlank c = true ∧ allBlank rest = true := by simpa [allBlank] using h
    have hplain := isPlain_of_isBlank hc
    have hstep : s.step c = s := by
      obtain ⟨group, quote, escaped⟩ := s
      obtain rfl : escaped = false := hescaped
      cases quote with
      | none => exact step_of_isPlain hplain group
      | some mark =>
        have hmark : isQuote mark = true := hquote mark rfl
        have hne : c ≠ mark := by
          rintro rfl
          simp [isPlain, hmark] at hplain
        have hslash : c ≠ '\\' := by
          rintro rfl
          cases hplain
        simp [step, hslash, hne]
    rw [run_cons, hstep, ih hrest]

end State

/-- A complete text that is trimmed **stays complete** unless it ends in an escape then. -/
theorem complete_trim_iff {text : List Char} (h : Complete text) :
    Complete (Text.trim text) ↔ endsInEscape (Text.trim text) = false := by
  obtain ⟨before, behind, hbefore, hbehind, htext⟩ := Text.padded_trim text
  have hlead : State.top.run before = .top := (closed_of_allBlank hbefore).complete
  constructor
  · intro hcomplete
    rw [← State.escaped_run (s := .top) rfl, hcomplete]
    rfl
  · intro hends
    rw [← State.escaped_run (s := .top) rfl] at hends
    rw [Complete, htext, State.run_append, State.run_append, hlead,
      State.run_of_allBlank hends (fun mark => State.isQuote_of_run) hbehind] at h
    exact h

end Scan

namespace ArgTree

open Scan (Complete endsInEscape)

/-! ### Normal forms -/

/-- The leaves of the full split **join** when none of them ends in an escape in front of a
separator. -/
theorem joins_fullSplit_iff {text : List Char} :
    Joins id (fullSplit text) ↔
      ∀ leaf, some leaf ∈ (fullSplit text).leaves.dropLast → endsInEscape leaf = false := by
  refine forall₂_congr fun leaf hleaf => ?_
  obtain ⟨piece, -, hcomplete, rfl⟩ := exists_complete_of_mem_dropLast hleaf
  exact Scan.complete_trim_iff hcomplete

/-- The full split of a text is that of its normal form **exactly when its leaves join**. -/
theorem fullSplit_text_fullSplit_iff {text : List Char} :
    fullSplit ((fullSplit text).text id) = fullSplit text ↔ Joins id (fullSplit text) := by
  constructor
  · intro h leaf hleaf
    rw [← h] at hleaf
    obtain ⟨piece, hpiece, hcomplete, rfl⟩ := exists_complete_of_mem_dropLast hleaf
    -- the normal form is its own normal form, so trimming takes nothing off its pieces
    have htext : (rawSplit ((fullSplit text).text id)).text Text.trim =
        (rawSplit ((fullSplit text).text id)).text id := by
      rw [← text_trimmed, trimmed_rawSplit, h, divides_rawSplit.text_eq]
    rw [trim_eq_of_text_trim htext piece hpiece]
    exact hcomplete
  · intro hjoins
    rw [fullSplit_text_of_joins (graded_fullSplit text) hjoins fun leaf hleaf =>
      (isPart_of_mem_fullSplit hleaf).1]
    exact map_eq_self fun leaf hleaf => (isPart_of_mem_fullSplit hleaf).2

/-! ### Reading the text of a tree again -/

/-- A traversal that succeeds makes an expression of each leaf and **keeps the omitted ones**. -/
theorem forall₂_leaves_of_traverse {ε φ : Type} {f : ε → Except Error φ} {tree : ArgTree ε}
    {tree' : ArgTree φ} (h : traverse f tree = .ok tree') :
    List.Forall₂ (Option.Rel fun e v => f e = .ok v) tree.leaves tree'.leaves := by
  induction tree generalizing tree' with
  | omitted =>
    cases h
    exact .cons .none .nil
  | leaf e =>
    obtain ⟨v, hv, rfl⟩ := traverse_leaf_eq_ok_iff.1 h
    exact .cons (.some hv) .nil
  | group level slots ih =>
    obtain ⟨slots', hslots, rfl⟩ := traverse_group_eq_ok_iff.1 h
    rw [leaves, leaves]
    clear h
    induction slots generalizing slots' with
    | nil =>
      cases hslots
      exact .nil
    | cons slot others ihothers =>
      obtain ⟨slot', others', hslot, hothers, rfl⟩ := traverseSlots_cons_eq_ok_iff.1 hslots
      rw [slotsLeaves, slotsLeaves]
      exact List.rel_append (ih slot (by simp) hslot)
        (ihothers (fun slot hslot => ih slot (by simp [hslot])) others' hothers)

theorem forall₂_of_traverse {ε φ : Type} {f : ε → Except Error φ} {tree : ArgTree ε}
    {tree' : ArgTree φ} (h : traverse f tree = .ok tree') :
    List.Forall₂ (fun e v => f e = .ok v) tree.expressions tree'.expressions :=
  List.rel_filterMap (fun _ _ hleaf => hleaf) (forall₂_leaves_of_traverse h)

/-- A tree that is built from a text is graded. -/
theorem graded_of_ofText {ε : Type} {compile : List Char → Except Error ε} {text : List Char}
    {tree : ArgTree ε} (h : ofText compile text = .ok tree) :
    Graded [.semicolon, .comma, .colon] tree := by
  have hshape := shape_traverse (ofText_eq_ok_iff.1 h)
  have hgraded := (graded_fullSplit text).map fun _ => ()
  rw [shape, shape] at hshape
  rw [← hshape] at hgraded
  exact hgraded.of_map

/-- What is read from a text is graded. -/
theorem graded_of_parseWith {ε κ : Type} [Leaf ε κ] {env : Env} {options : Options}
    {text : List Char} {tree : ArgTree ε} (h : parseWith env options text = .ok tree) :
    Graded [.semicolon, .comma, .colon] tree :=
  graded_of_ofText h

/-- **The text of a tree of expressions has its shape.** If what the leaves of a tree are written as
compiles, then the text of the tree is read as a tree with the same levels, slots and omitted
arguments, and its leaves are what those texts compile to, in order. -/
theorem parseWith_text_of_compile {env : Env} {options : Options}
    (h : options.expandTemplates = false) {text : List Char} {tree : ArgTree Expr}
    (hparse : parseWith env options text = .ok tree)
    (hleaves : ∀ e ∈ tree.expressions, ∃ e', Expr.compile env options e.text = .ok e') :
    ∃ tree' : ArgTree Expr, parseWith env options (tree.text Expr.text) = .ok tree' ∧
      tree'.shape = tree.shape ∧
      List.Forall₂ (fun e e' => Expr.compile env options e.text = .ok e') tree.expressions
        tree'.expressions := by
  have harguments : ∀ e ∈ tree.expressions, IsArgument e.text := by
    intro e he
    obtain ⟨e', he'⟩ := hleaves e he
    obtain ⟨r, hreads, -⟩ := (Expr.compile_eq_ok_iff h).1 he'
    exact Expr.isArgument_of_reads hreads
  obtain ⟨tree', htree'⟩ := exists_traverse_eq_ok hleaves
  refine ⟨tree', ?_, shape_traverse htree', forall₂_of_traverse htree'⟩
  have hsplit := fullSplit_text (graded_of_parseWith hparse) harguments
  have htrim : ∀ (e : Expr) v, Expr.compile env options (Text.trim e.text) = .ok v ↔
      ∃ v', Expr.compile env options e.text = .ok v' ∧ v = v' := by
    intro e v
    simp [Expr.compile_trim h]
  rw [parseWith_eq_ok_iff, hsplit, traverse_map]
  exact (traverse_eq_ok_iff htrim).2 ⟨tree', htree', (map_id' tree').symm⟩

/-- In ` x , ; "a"&"b"` the second group is one leaf, which is written as `"ab"`. -/
theorem parseWith_text_omitted :
    ∃ tree' : ArgTree Expr,
      parseWith ⟨⟨9, 9⟩, .empty⟩ {} ['x', ',', ';', '"', 'a', 'b', '"'] = .ok tree' ∧
        tree'.shape = .group .semicolon [.group .comma [.leaf (), .omitted], .leaf ()] ∧
        List.Forall₂ (fun (e e' : Expr) => Expr.compile ⟨⟨9, 9⟩, .empty⟩ {} e.text = .ok e')
          [.name "x", .literal (.text "ab")] tree'.expressions := by
  have hfirst : Expr.compile ⟨⟨9, 9⟩, .empty⟩ {} ['x'] = .ok (.name "x") := by cbv
  have hjoined : Expr.compile ⟨⟨9, 9⟩, .empty⟩ {} ['"', 'a', '"', '&', '"', 'b', '"'] =
      .ok (.literal (.text "ab")) := by cbv
  have hsecond : Expr.compile ⟨⟨9, 9⟩, .empty⟩ {} ['"', 'a', 'b', '"'] =
      .ok (.literal (.text "ab")) := by cbv
  have hsplit : fullSplit [' ', 'x', ' ', ',', ' ', ';', ' ', '"', 'a', '"', '&', '"', 'b', '"'] =
      .group .semicolon [.group .comma [.leaf ['x'], .omitted],
        .leaf ['"', 'a', '"', '&', '"', 'b', '"']] := rfl
  have hparse : parseWith ⟨⟨9, 9⟩, .empty⟩ {}
      [' ', 'x', ' ', ',', ' ', ';', ' ', '"', 'a', '"', '&', '"', 'b', '"'] =
        (.ok (.group .semicolon [.group .comma [.leaf (.name "x"), .omitted],
          .leaf (.literal (.text "ab"))]) : Except Error (ArgTree Expr)) := by
    rw [parseWith_eq_ok_iff, hsplit]
    change traverse (Expr.compile ⟨⟨9, 9⟩, .empty⟩ {}) _ = _
    simp only [traverse, traverseSlots, hfirst, hjoined]
    rfl
  refine parseWith_text_of_compile rfl hparse fun e he => ?_
  obtain rfl | rfl : e = .name "x" ∨ e = .literal (.text "ab") := by
    simpa [expressions, leaves, slotsLeaves] using he
  · exact ⟨_, hfirst⟩
  · exact ⟨_, hsecond⟩

end ArgTree

/-! ### Leaves that keep their text -/

/-- A **verbatim** leaf: any text, as it is. -/
structure Verbatim where
  /-- The text. -/
  text : List Char

instance : Leaf Verbatim Empty where
  compile _ _ _ text := .ok ⟨text⟩
  text := Verbatim.text
  equals d e := d.text = e.text
  optimize e := (e, none)
  isConstant _ := false
  containsParam _ _ := false
  usedParams _ _ names := names
  usedFields _ _ names := names
  usedCells _ cells := cells

namespace ArgTree

open Scan (endsInEscape)

variable {ε κ : Type} [Leaf ε κ]

/-- **The text of a tree of verbatim leaves is read as the tree** exactly when no leaf in front of a
separator ends in an escape. -/
theorem parseWith_text_iff_of_verbatim {env : Env} {options : Options} {keep : List Char → ε}
    (hcompile : ∀ text, Leaf.compile env options 0 text = .ok (keep text))
    (htext : ∀ text, Leaf.text (keep text) = text) {text : List Char} {tree : ArgTree ε}
    (hparse : parseWith env options text = .ok tree) :
    parseWith env options (tree.text Leaf.text) = .ok tree ↔
      ∀ e, some e ∈ tree.leaves.dropLast → endsInEscape (Leaf.text e) = false := by
  have hread : ∀ text, parseWith env options text = .ok ((fullSplit text).map keep) :=
    fun text => parseWith_eq_ok_iff.2 (traverse_eq_ok_map fun piece _ => hcompile piece)
  rw [hread, Except.ok.injEq] at hparse
  subst hparse
  have hkeep : ∀ tree other : ArgTree (List Char), tree.map keep = other.map keep ↔ tree = other := by
    intro tree other
    refine ⟨fun h => ?_, congrArg _⟩
    have hback := congrArg (map Leaf.text) h
    rwa [map_map, map_map, map_eq_self fun e _ => htext e, map_eq_self fun e _ => htext e] at hback
  rw [hread, Except.ok.injEq, hkeep, text_map]
  simp only [htext]
  rw [leaves_map, ← List.map_dropLast]
  refine (fullSplit_text_fullSplit_iff.trans joins_fullSplit_iff).trans ?_
  constructor
  · intro h e he
    obtain ⟨leaf?, hmem, hleaf⟩ := List.mem_map.1 he
    obtain ⟨leaf, rfl, rfl⟩ := Option.map_eq_some_iff.1 hleaf
    rw [htext]
    exact h leaf hmem
  · intro h leaf hmem
    have hleaf := h (keep leaf) (List.mem_map.2 ⟨some leaf, hmem, rfl⟩)
    rwa [htext] at hleaf

/-- In ` x\,y , "z;` the first comma is escaped and the semicolon is behind a mark that is never
closed. -/
theorem parseWith_text_unterminated :
    parseWith ⟨⟨9, 9⟩, .empty⟩ {} ['x', '\\', ',', 'y', ',', '"', 'z', ';'] =
      (.ok (.group .comma [.leaf ⟨['x', '\\', ',', 'y']⟩, .leaf ⟨['"', 'z', ';']⟩]) :
        Except Error (ArgTree Verbatim)) := by
  have hparse : parseWith ⟨⟨9, 9⟩, .empty⟩ {}
      [' ', 'x', '\\', ',', 'y', ' ', ',', ' ', '"', 'z', ';'] =
        (.ok (.group .comma [.leaf ⟨['x', '\\', ',', 'y']⟩, .leaf ⟨['"', 'z', ';']⟩]) :
          Except Error (ArgTree Verbatim)) := rfl
  have hcompile : ∀ text, Leaf.compile ⟨⟨9, 9⟩, .empty⟩ {} 0 text = .ok (Verbatim.mk text) :=
    fun _ => rfl
  refine (parseWith_text_iff_of_verbatim hcompile (fun _ => rfl) hparse).2 fun e he => ?_
  obtain rfl : e = ⟨['x', '\\', ',', 'y']⟩ := by
    simpa [leaves, slotsLeaves] using he
  rfl

/-- The text of a tree of verbatim leaves is **not always** read as the tree. In `a\ ,b` the
backslash escapes a blank, which is trimmed away, and then it escapes the comma. -/
theorem parseWith_text_ne_of_verbatim :
    ¬ ∀ {ε κ : Type} [Leaf ε κ] (keep : List Char → ε),
      (∀ env options depth text, Leaf.compile env options depth text = .ok (keep text)) →
      (∀ text, Leaf.text (keep text) = text) →
        ∀ (env : Env) (options : Options) (text : List Char) (tree : ArgTree ε),
          parseWith env options text = .ok tree →
            parseWith env options (tree.text Leaf.text) = .ok tree := by
  intro hstable
  have hparse : parseWith ⟨⟨9, 9⟩, .empty⟩ {} ['a', '\\', ' ', ',', 'b'] =
      (.ok (.group .comma [.leaf ⟨['a', '\\']⟩, .leaf ⟨['b']⟩]) :
        Except Error (ArgTree Verbatim)) := rfl
  have hagain : parseWith ⟨⟨9, 9⟩, .empty⟩ {} ['a', '\\', ',', 'b'] =
      (.ok (.leaf ⟨['a', '\\', ',', 'b']⟩) : Except Error (ArgTree Verbatim)) := rfl
  have hsame := hstable Verbatim.mk (fun _ _ _ _ => rfl) (fun _ => rfl) _ _ _ _ hparse
  cases hagain.symm.trans hsame

end ArgTree

end GridFormula
