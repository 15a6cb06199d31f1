import GridFormula.Proofs.Constants
import GridFormula.Proofs.RoundTrip

/-!
# The wording of literals

A number that is not finite has no numeral. It is written as a word, `inf` or `NaN`, and a word is
read as a name. So the text of an expression with such numbers is read as an expression too, but not
as its unfolded form: it is read as its wording, which has names in the place of these numbers.

The wording has the text of the expression and is well-formed where the expression is. It is its own
unfolded form, so it is what that text reads as. It nests as deep as the unfolded form does, because
a name takes the place of a number. And it can fold to a constant only where every number has a
numeral.

## Main definitions

* `Value.worded`, `Expr.worded`: the wording.
* `Expr.Legible`: what can be written so that it is read, if not as itself.

## Main results

* `Expr.reads_worded`: the text of a well-formed expression of legible nodes reads as its wording.
* `Expr.nesting_worded`: the wording nests like the unfolded form.
* `Expr.static_worded_iff`: the wording of a value is static exactly when the value is finite.
-/

namespace GridFormula

/-! ### Values -/

/-- The **wording** of a magnitude: its numeral, or the word that is written where there is none. -/
def Magnitude.worded (m : Magnitude) : Expr :=
  if m.isInfinite then .name "inf" else .literal (.number (.signed false m))

/-- The wording of a number. -/
def Number.worded : Number → Expr
  | .nan => .name "NaN"
  | .signed true m => .unary .negate m.worded
  | .signed false m => m.worded

mutual

/-- The **wording** of a value: the expression that its literal is read as. -/
def Value.worded : Value → Expr
  | .null => .literal .null
  | .bool b => .literal (.bool b)
  | .number n => n.worded
  | .text s => .literal (.text s)
  | .sequence items => .sequence (Value.allWorded items)

/-- The wordings of a row of values. -/
def Value.allWorded : List Value → List Expr
  | [] => []
  | item :: others => item.worded :: Value.allWorded others

end

/-- **Induction over values** with the numbers by their signs. -/
@[elab_as_elim]
theorem Value.inductSigned {motive : Value → Prop} (null : motive .null)
    (bool : ∀ b, motive (.bool b)) (text : ∀ s, motive (.text s)) (nan : motive (.number .nan))
    (positive : ∀ m, motive (.number (.signed false m)))
    (negative : ∀ m, motive (.number (.signed true m)))
    (sequence : ∀ items, (∀ item ∈ items, motive item) → motive (.sequence items))
    (value : Value) : motive value := by
  induction value with
  | null => exact null
  | bool b => exact bool b
  | text s => exact text s
  | number n =>
    match n with
    | .nan => exact nan
    | .signed false m => exact positive m
    | .signed true m => exact negative m
  | sequence items ih => exact sequence items ih

theorem Value.isFinite_signed_iff (negative : Bool) (m : Magnitude) :
    (Value.number (.signed negative m)).isFinite = true ↔ m.isInfinite = false := by
  simp [Value.isFinite, Number.isFinite]

theorem Value.allWorded_eq_map (items : List Value) :
    Value.allWorded items = items.map Value.worded := by
  induction items with
  | nil => rfl
  | cons item others ih => rw [Value.allWorded, ih, List.map_cons]

theorem Expr.itemsText_eq_intercalate (items : List Expr) :
    Expr.itemsText items = [','].intercalate (items.map Expr.text) := by
  induction items with
  | nil => rfl
  | cons item others ih =>
    cases others with
    | nil => simp [Expr.itemsText]
    | cons next others =>
      rw [List.map_cons, List.map_cons, Scan.intercalate_cons_cons, ← List.map_cons, ← ih]
      rfl

theorem Value.literals_eq_intercalate (items : List Value) :
    Value.literals items = [','].intercalate (items.map Value.literal) := by
  rw [Expr.literals_eq_itemsText, Expr.itemsText_eq_intercalate, List.map_map]
  rfl

theorem Magnitude.text_worded (m : Magnitude) : m.worded.text = m.text := by
  unfold Magnitude.worded
  split
  · next hm => rw [Magnitude.text, if_pos hm]; rfl
  · rfl

/-- The wording of a value has the text of the value. -/
theorem Value.text_worded (value : Value) : value.worded.text = value.literal := by
  induction value using Value.inductSigned with
  | null | bool | text | nan => rfl
  | positive m => exact m.text_worded
  | negative m => exact congrArg ('-' :: ·) m.text_worded
  | sequence items ih =>
    have hitems : (items.map Value.worded).map Expr.text = items.map Value.literal := by
      rw [List.map_map]
      exact List.map_congr_left ih
    rw [Value.worded, Value.allWorded_eq_map, Expr.text, Expr.itemsText_eq_intercalate, hitems,
      Value.literal, Value.literals_eq_intercalate]

theorem ArgTree.text_congr {ε : Type} {f g : ε → List Char} {tree : ArgTree ε}
    (h : ∀ e ∈ tree.expressions, f e = g e) : tree.text f = tree.text g := by
  have hmap := congrArg (ArgTree.text id) (ArgTree.map_congr h)
  rwa [ArgTree.text_map, ArgTree.text_map] at hmap

namespace Expr

/-! ### Nodes that read back -/

/-- A node **reads back** as it is: it is well-formed and writable, and no literal that is read as
something else. -/
structure ReadsBack (grid : Grid) (e : Expr) : Prop where
  /-- Nothing in it is read as another node. -/
  asRead : AsRead grid e
  /-- Its text is read at all. -/
  writable : Writable e

variable {grid : Grid}

theorem reads_of_readsBack {e : Expr} (h : e.Everywhere (ReadsBack grid)) :
    Reads grid e.text e := by
  have hread := reads_text (h.mono fun _ hnode => hnode.asRead.wellFormed)
    (h.mono fun _ hnode => hnode.writable)
  rwa [unfolded_eq_self (h.mono fun _ hnode => hnode.asRead.primitive)] at hread

theorem readsBack_literal {value : Value} (hunfolded : value.unfolded = .literal value)
    (hfinite : value.isFinite = true) : ReadsBack grid (.literal value) :=
  ⟨asRead_literal hunfolded, hfinite⟩

theorem readsBack_name {n : String} (hn : IsName n) (hstands : StandsFor grid n (.name n)) :
    ReadsBack grid (.name n) :=
  ⟨.of_not_literal ⟨hn, hstands⟩ nofun, trivial⟩

/-- The words for numbers are names, for they have no digits. -/
theorem readsBack_word (n : String) (h : n ∈ ["inf", "NaN"]) : ReadsBack grid (.name n) := by
  have hword : ∀ n ∈ ["inf", "NaN"], keyword? n = none ∧ Cell.ofName? n.toList = none ∧
      '$' ∉ n.toList := by decide
  obtain ⟨hkeyword, hcell, hdollar⟩ := hword n h
  have hname : IsName n := by
    simp only [List.mem_cons, List.not_mem_nil, or_false] at h
    rcases h with rfl | rfl
    · exact isName_of_all (rfl : _ = ['i', 'n', 'f']) (by decide +kernel)
    · exact isName_of_all (rfl : _ = ['N', 'a', 'N']) (by decide +kernel)
  exact readsBack_name hname (.name hkeyword (by rw [Grid.cell?, hcell]; rfl) hdollar)

theorem readsBack_magnitude (m : Magnitude) : m.worded.Everywhere (ReadsBack grid) := by
  unfold Magnitude.worded
  split
  · exact everywhere_name.2 (readsBack_word _ (by simp))
  · next hm =>
    have hfinite := (Value.isFinite_signed_iff false m).2 (by simpa using hm)
    exact everywhere_literal.2 (readsBack_literal rfl hfinite)

theorem tightness_magnitude (m : Magnitude) : m.worded.tightness = 8 := by
  unfold Magnitude.worded
  split <;> rfl

theorem readsBack_worded_value (value : Value) : value.worded.Everywhere (ReadsBack grid) := by
  induction value using Value.inductSigned with
  | null | bool | text => exact everywhere_literal.2 (readsBack_literal rfl rfl)
  | nan => exact everywhere_name.2 (readsBack_word _ (by simp))
  | positive m => exact readsBack_magnitude m
  | negative m =>
    have hholds : Holds 7 m.worded := .inl (by rw [tightness_magnitude]; decide)
    exact everywhere_unary.2 ⟨⟨.of_not_literal hholds nofun, trivial⟩, readsBack_magnitude m⟩
  | sequence items ih =>
    rw [Value.worded, Value.allWorded_eq_map, everywhere_sequence]
    exact ⟨⟨.of_not_literal trivial nofun, trivial⟩, List.forall_mem_map.2 ih⟩

/-! ### The wording of expressions -/

mutual

/-- The **wording** of an expression: its literals are in the words that they are written in. -/
def worded : Expr → Expr
  | .literal value => value.worded
  | .name n => .name n
  | .field n => .field n
  | .currentRow => .currentRow
  | .cell c => .cell c
  | .sequence items => .sequence (itemsWorded items)
  | .paren inner => .paren inner.worded
  | .call function arguments => .call function (argumentsWorded arguments)
  | .member target n => .member target.worded n
  | .memberCall target n arguments => .memberCall target.worded n (argumentsWorded arguments)
  | .unary op operand => .unary op operand.worded
  | .binary op left right => .binary op left.worded right.worded

/-- The wordings of a row of expressions. -/
def itemsWorded : List Expr → List Expr
  | [] => []
  | item :: others => item.worded :: itemsWorded others

/-- Arguments with the wordings of their expressions. -/
def argumentsWorded : ArgTree Expr → ArgTree Expr
  | .omitted => .omitted
  | .leaf e => .leaf e.worded
  | .group level slots => .group level (slotsWorded slots)

/-- A row of slots with the wordings of their expressions. -/
def slotsWorded : List (ArgTree Expr) → List (ArgTree Expr)
  | [] => []
  | slot :: others => argumentsWorded slot :: slotsWorded others

end

theorem itemsWorded_eq_map (items : List Expr) : itemsWorded items = items.map worded := by
  induction items with
  | nil => rfl
  | cons item others ih => rw [itemsWorded, ih, List.map_cons]

theorem argumentsWorded_eq_map (arguments : ArgTree Expr) :
    argumentsWorded arguments = arguments.map worded :=
  ArgTree.eq_map slotsWorded rfl (fun _ => rfl) (fun _ _ => rfl) rfl (fun _ _ => rfl) arguments

/-- The wording of an expression **has its text**. -/
theorem text_worded (e : Expr) : e.worded.text = e.text := by
  have harguments : ∀ {arguments : ArgTree Expr},
      (∀ e ∈ arguments.expressions, e.worded.text = e.text) →
        argumentsText (argumentsWorded arguments) = argumentsText arguments := by
    intro arguments h
    rw [argumentsText_eq, argumentsText_eq, argumentsWorded_eq_map, ArgTree.text_map]
    exact ArgTree.text_congr h
  induction e with
  | literal value => exact value.text_worded
  | name | field | currentRow | cell => rfl
  | sequence items ih =>
    have hitems : (items.map worded).map text = items.map text := by
      rw [List.map_map]
      exact List.map_congr_left ih
    rw [worded, itemsWorded_eq_map, text, text, itemsText_eq_intercalate, hitems,
      itemsText_eq_intercalate]
  | paren inner ih => rw [worded, text, ih, text]
  | call function arguments ih => rw [worded, text, harguments ih, text]
  | member target n ih => rw [worded, text, ih, text]
  | memberCall target n arguments ih iharguments =>
    rw [worded, text, ih, harguments iharguments, text]
  | unary op operand ih => rw [worded, text, ih, text]
  | binary op left right ihl ihr => rw [worded, text, ihl, ihr, text]

/-- A node is **legible** when its text is read as a formula, whatever the formula is: no field
name has a backslash, and no number is the target of a member. -/
def Legible : Expr → Prop
  | .field n => '\\' ∉ n.toList
  | .member target _ => ∀ n, target ≠ .literal (.number n)
  | .memberCall target _ _ => ∀ n, target ≠ .literal (.number n)
  | _ => True

theorem tightness_worded (e : Expr) : e.worded.tightness = e.tightness := by
  cases e with
  | literal value =>
    cases value using Value.inductSigned with
    | null | bool | text | nan | negative | sequence => rfl
    | positive m => exact tightness_magnitude m
  | _ => rfl

/-- What takes the place of an operand is as tight as the operand was. -/
theorem Holds.worded {p : Nat} {e : Expr} (h : Holds p e) (hp : p ≤ 7) : Holds p e.worded :=
  .inl (tightness_worded e ▸ h.le_tightness hp)

/-- A target other than a number holds in front of a member, and so does what takes its place. -/
theorem Holds.worded_target {e : Expr} (h : Holds 8 e) (hnumber : ∀ n, e ≠ .literal (.number n)) :
    Holds 8 e.worded :=
  .inl (by rw [tightness_worded, h.tightness_eq hnumber])

theorem worded_ne_number {e : Expr} (h : ∀ n, e ≠ .literal (.number n)) (n : Number) :
    e.worded ≠ .literal (.number n) := by
  cases e with
  | literal value =>
    cases value with
    | number n' => exact absurd rfl (h n')
    | _ => nofun
  | _ => nofun

theorem readsBack_worded {e : Expr} (hform : e.Everywhere (WellFormed grid))
    (hlegible : e.Everywhere Legible) : e.worded.Everywhere (ReadsBack grid) := by
  induction e with
  | literal value => exact readsBack_worded_value value
  | name n => exact everywhere_name.2 (readsBack_name hform.self.1 hform.self.2)
  | field n => exact everywhere_field.2 ⟨.of_not_literal trivial nofun, hlegible.self⟩
  | currentRow => exact everywhere_currentRow.2 ⟨.of_not_literal trivial nofun, trivial⟩
  | cell c => exact everywhere_cell.2 ⟨.of_not_literal hform.self nofun, trivial⟩
  | sequence items ih =>
    rw [everywhere_sequence] at hform hlegible
    rw [worded, itemsWorded_eq_map, everywhere_sequence]
    exact ⟨⟨.of_not_literal trivial nofun, trivial⟩, List.forall_mem_map.2 fun item hitem =>
      ih item hitem (hform.2 item hitem) (hlegible.2 item hitem)⟩
  | paren inner ih =>
    rw [everywhere_paren] at hform hlegible
    exact everywhere_paren.2 ⟨⟨.of_not_literal trivial nofun, trivial⟩, ih hform.2 hlegible.2⟩
  | call function arguments ih =>
    rw [everywhere_call] at hform hlegible
    rw [worded, argumentsWorded_eq_map, everywhere_call, ArgTree.expressions_map]
    refine ⟨⟨.of_not_literal ⟨hform.1.1, hform.1.2.map worded⟩ nofun, trivial⟩, ?_⟩
    exact List.forall_mem_map.2 fun e he => ih e he (hform.2 e he) (hlegible.2 e he)
  | member target n ih =>
    rw [everywhere_member] at hform hlegible
    have htarget := hform.1.2.worded_target hlegible.1
    exact everywhere_member.2 ⟨⟨.of_not_literal ⟨hform.1.1, htarget⟩ nofun,
      worded_ne_number hlegible.1⟩, ih hform.2 hlegible.2⟩
  | memberCall target n arguments ih iharguments =>
    rw [everywhere_memberCall] at hform hlegible
    obtain ⟨⟨hn, hholds, hgraded⟩, hform, hforms⟩ := hform
    obtain ⟨hnumber, hlegible, hlegibles⟩ := hlegible
    rw [worded, argumentsWorded_eq_map, everywhere_memberCall, ArgTree.expressions_map]
    refine ⟨⟨.of_not_literal ⟨hn, hholds.worded_target hnumber, hgraded.map worded⟩ nofun,
      worded_ne_number hnumber⟩, ih hform hlegible, ?_⟩
    exact List.forall_mem_map.2 fun e he => iharguments e he (hforms e he) (hlegibles e he)
  | unary op operand ih =>
    rw [everywhere_unary] at hform hlegible
    have hoperand := Holds.worded hform.1 (Nat.le_refl 7)
    exact everywhere_unary.2 ⟨⟨.of_not_literal hoperand nofun, trivial⟩, ih hform.2 hlegible.2⟩
  | binary op left right ihl ihr =>
    rw [everywhere_binary] at hform hlegible
    have hsix : op.precedence ≤ 6 := by cases op <;> decide
    have hleft := hform.1.1.worded (by omega)
    have hright := hform.1.2.worded (by omega)
    exact everywhere_binary.2 ⟨⟨.of_not_literal ⟨hleft, hright⟩ nofun, trivial⟩,
      ihl hform.2.1 hlegible.2.1, ihr hform.2.2 hlegible.2.2⟩

/-- The text of a well-formed expression of legible nodes **reads as its wording**. -/
theorem reads_worded {e : Expr} (hform : e.Everywhere (WellFormed grid))
    (hlegible : e.Everywhere Legible) : Reads grid e.text e.worded := by
  rw [← text_worded]
  exact reads_of_readsBack (readsBack_worded hform hlegible)

/-! ### The nesting of the wording -/

theorem itemsNesting_map {ι : Type} {f g : ι → Expr} {items : List ι}
    (h : ∀ item ∈ items, (f item).nesting = (g item).nesting) :
    itemsNesting (items.map f) = itemsNesting (items.map g) := by
  refine eq_of_forall_ge_iff fun n => ?_
  rw [itemsNesting_le_iff, itemsNesting_le_iff, List.forall_mem_map, List.forall_mem_map]
  exact forall₂_congr fun item hitem => by rw [h item hitem]

theorem argumentsNesting_map {f g : Expr → Expr} {arguments : ArgTree Expr}
    (h : ∀ e ∈ arguments.expressions, (f e).nesting = (g e).nesting) :
    argumentsNesting (arguments.map f) = argumentsNesting (arguments.map g) := by
  refine eq_of_forall_ge_iff fun n => ?_
  rw [argumentsNesting_le_iff, argumentsNesting_le_iff, ArgTree.expressions_map,
    ArgTree.expressions_map, List.forall_mem_map, List.forall_mem_map]
  exact forall₂_congr fun e he => by rw [h e he]

theorem nesting_magnitude (m : Magnitude) : m.worded.nesting = 0 := by
  unfold Magnitude.worded
  split <;> rfl

theorem nesting_worded_value (value : Value) : value.worded.nesting = value.unfolded.nesting := by
  induction value using Value.inductSigned with
  | null | bool | text | nan => rfl
  | positive m => exact nesting_magnitude m
  | negative m => exact congrArg (· + 1) (nesting_magnitude m)
  | sequence items ih =>
    rw [Value.worded, Value.unfolded, Value.allWorded_eq_map, Value.allUnfolded_eq_map, nesting,
      nesting, itemsNesting_map ih]

/-- The wording **nests like the unfolded form**: a name takes the place of a number. -/
theorem nesting_worded (e : Expr) : e.worded.nesting = e.unfolded.nesting := by
  induction e with
  | literal value => exact nesting_worded_value value
  | name | field | currentRow | cell => rfl
  | sequence items ih =>
    rw [worded, unfolded, itemsWorded_eq_map, itemsUnfolded_eq_map, nesting, nesting,
      itemsNesting_map ih]
  | paren inner ih => rw [worded, unfolded, nesting, nesting, ih]
  | call function arguments ih =>
    rw [worded, unfolded, argumentsWorded_eq_map, argumentsUnfolded_eq_map, nesting, nesting,
      argumentsNesting_map ih]
  | member target n ih => rw [worded, unfolded, nesting, nesting, ih]
  | memberCall target n arguments ih iharguments =>
    rw [worded, unfolded, argumentsWorded_eq_map, argumentsUnfolded_eq_map, nesting, nesting,
      argumentsNesting_map iharguments, ih]
  | unary op operand ih => rw [worded, unfolded, nesting, nesting, ih]
  | binary op left right ihl ihr => rw [worded, unfolded, nesting, nesting, ihl, ihr]

/-! ### What the wording of a value folds to -/

/-- Where every number has a numeral, the wording is the unfolded form. -/
theorem worded_of_isFinite {value : Value} (h : value.isFinite = true) :
    value.worded = value.unfolded := by
  have hmagnitude {negative : Bool} {m : Magnitude}
      (h : (Value.number (.signed negative m)).isFinite = true) :
      m.worded = .literal (.number (.signed false m)) := by
    rw [Magnitude.worded, (Value.isFinite_signed_iff negative m).1 h]
    rfl
  induction value using Value.inductSigned with
  | null | bool | text => rfl
  | nan => cases h
  | positive m => exact hmagnitude h
  | negative m => exact congrArg (Expr.unary .negate) (hmagnitude h)
  | sequence items ih =>
    rw [Value.isFinite_sequence] at h
    rw [Value.worded, Value.unfolded, Value.allWorded_eq_map, Value.allUnfolded_eq_map,
      List.map_congr_left fun item hitem => ih item hitem (h item hitem)]

/-- There are no calls in the wording of a value. -/
theorem within_worded (finish : Expr → Expr) (value : Value) :
    value.worded.within finish = value.worded := by
  have hmagnitude (m : Magnitude) : m.worded.within finish = m.worded := by
    unfold Magnitude.worded
    split <;> rfl
  induction value using Value.inductSigned with
  | null | bool | text | nan => rfl
  | positive m => exact hmagnitude m
  | negative m => exact congrArg (Expr.unary .negate) (hmagnitude m)
  | sequence items ih =>
    rw [Value.worded, Value.allWorded_eq_map, within, itemsWithin_eq_map, List.map_map]
    exact congrArg sequence (List.map_congr_left ih)

theorem static_magnitude_iff (m : Magnitude) : m.worded.Static ↔ m.isInfinite = false := by
  unfold Magnitude.worded
  split
  · next hm => exact iff_of_false (not_static rfl) (by simp [hm])
  · next hm => exact iff_of_true (static_literal _) (by simpa using hm)

/-- The wording of a value is **static** exactly when the value is finite. -/
theorem static_worded_iff (value : Value) : value.worded.Static ↔ value.isFinite = true := by
  induction value using Value.inductSigned with
  | null | bool | text => exact iff_of_true (static_literal _) rfl
  | nan => exact iff_of_false (not_static rfl) nofun
  | positive m => exact (static_magnitude_iff m).trans (Value.isFinite_signed_iff false m).symm
  | negative m =>
    exact (static_unary.trans (static_magnitude_iff m)).trans
      (Value.isFinite_signed_iff true m).symm
  | sequence items ih =>
    rw [Value.worded, Value.allWorded_eq_map, static_sequence, List.forall_mem_map,
      Value.isFinite_sequence]
    exact forall₂_congr ih

end Expr

end GridFormula
