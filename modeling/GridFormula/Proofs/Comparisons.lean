import GridFormula.Expr.Compile
import GridFormula.Expr.Fold
import Mathlib

/-!
# Operators on literals

When operators fail on constants, and what comparisons fold to. An operator refuses operands of
kinds that it does not take, and a division refuses a zero. Nothing else fails, except that a number
without value has no place among the others, so that no ordering can be decided for it.

The orderings and the two equalities are decided by different functions. Where both values have
places in one order they agree: the place of one against the other decides all six comparisons, and
the places form a total order.

## Main definitions

* `UnaryOp.takes`, `BinaryOp.takes`: the kinds of operands that an operator takes.
* `BinaryOp.Refuses`: why an operator fails on two values.
* `Value.Comparable`: two values that have places in one order.
* `Expr.Compares`: the outcomes of all comparisons of two values.

## Main results

* `BinaryOp.apply_eq_error_iff`: an operator fails just where it refuses its operands.
* `Expr.compares_iff`: one order decides all comparisons.
* `Expr.fold_onLiterals`: operators on literals, failing and comparing.
-/

namespace GridFormula

namespace Value

/-- Whether the values of a kind are ordered. -/
def Kind.hasOrder : Kind → Bool
  | .number | .string | .boolean => true
  | .null | .sequence => false

/-- Whether a value is the **number without value**. -/
def isNan : Value → Bool
  | .number .nan => true
  | _ => false

/-- Two values are **comparable** when they are of one ordered kind and none of them is the number
without value. -/
structure Comparable (l r : Value) : Prop where
  /-- They are of one kind. -/
  kind_eq : l.kind = r.kind
  /-- The kind is ordered. -/
  hasOrder : l.kind.hasOrder = true
  /-- The first is no number without value. -/
  left_isNan : l.isNan = false
  /-- Nor is the second. -/
  right_isNan : r.isNan = false

theorem compare?_text (s t : String) : compare? (.text s) (.text t) = some (compare s t) := rfl

/-- The order of two values is that of two integers, two texts or two truth values. -/
theorem compare?_cases {l r : Value} {order : Ordering} (h : l.compare? r = some order) :
    (∃ s m t n, l = .number (.signed s m) ∧ r = .number (.signed t n) ∧
        compare (Number.place s m) (Number.place t n) = order) ∨
      (∃ s t, l = .text s ∧ r = .text t ∧ compare s t = order) ∨
      ∃ a b, l = .bool a ∧ r = .bool b ∧ compare a b = order := by
  unfold compare? at h
  split at h
  · next x y =>
    cases x <;> cases y <;> cases h
    exact .inl ⟨_, _, _, _, rfl, rfl, rfl⟩
  · cases h
    exact .inr (.inl ⟨_, _, rfl, rfl, rfl⟩)
  · cases h
    exact .inr (.inr ⟨_, _, rfl, rfl, rfl⟩)
  · cases h

/-- Values have an order just when they are comparable. -/
theorem exists_compare?_iff {l r : Value} :
    (∃ order, l.compare? r = some order) ↔ Comparable l r := by
  constructor
  · rintro ⟨order, h⟩
    rcases compare?_cases h with ⟨_, _, _, _, rfl, rfl, -⟩ | ⟨_, _, rfl, rfl, -⟩ |
      ⟨_, _, rfl, rfl, -⟩ <;> exact ⟨rfl, rfl, rfl, rfl⟩
  · rintro ⟨hkind, horder, hleft, hright⟩
    cases l <;> cases r <;> cases hkind <;> cases horder
    · exact ⟨_, rfl⟩
    · next x y =>
      cases x with
      | nan => cases hleft
      | signed s m =>
        cases y with
        | nan => cases hright
        | signed t n => exact ⟨_, rfl⟩
    · exact ⟨_, rfl⟩

/-- Values are **equal where neither comes before** the other. -/
theorem equals_of_compare? {l r : Value} {order : Ordering} (h : l.compare? r = some order) :
    l.equals r = decide (order = .eq) := by
  rcases compare?_cases h with ⟨_, _, _, _, rfl, rfl, rfl⟩ | ⟨s, t, rfl, rfl, rfl⟩ |
    ⟨a, b, rfl, rfl, rfl⟩
  · simp [equals, Number.equals, Number.compare?]
  · exact Bool.eq_iff_iff.2 (by simp [equals])
  · cases a <;> cases b <;> rfl

/-- Seen **from the other value**, the order is the opposite one. -/
theorem compare?_swap {l r : Value} {order : Ordering} (h : l.compare? r = some order) :
    r.compare? l = some order.swap := by
  rcases compare?_cases h with ⟨_, _, _, _, rfl, rfl, rfl⟩ | ⟨s, t, rfl, rfl, rfl⟩ |
    ⟨a, b, rfl, rfl, rfl⟩
  · exact congrArg some Std.OrientedCmp.eq_swap
  · rw [compare?_text]
    exact congrArg some Std.OrientedCmp.eq_swap
  · exact congrArg some Std.OrientedCmp.eq_swap

/-- What comes before a value or is equal to it does so for all that **come behind** the value or
are equal to it. -/
theorem exists_compare?_isLE {l m r : Value} {first second : Ordering}
    (hfirst : l.compare? m = some first) (hsecond : m.compare? r = some second)
    (hle : first.isLE = true) (hle' : second.isLE = true) :
    ∃ order, l.compare? r = some order ∧ order.isLE = true := by
  rcases compare?_cases hfirst with ⟨_, _, _, _, rfl, rfl, rfl⟩ | ⟨s, t, rfl, rfl, rfl⟩ |
      ⟨a, b, rfl, rfl, rfl⟩ <;>
    rcases compare?_cases hsecond with ⟨_, _, _, _, heq, rfl, rfl⟩ | ⟨t', u, heq, rfl, rfl⟩ |
      ⟨b', c, heq, rfl, rfl⟩ <;>
    cases heq
  · exact ⟨_, rfl, Std.TransCmp.isLE_trans hle hle'⟩
  · exact ⟨_, compare?_text s u, Std.TransCmp.isLE_trans hle hle'⟩
  · exact ⟨_, rfl, Std.TransCmp.isLE_trans hle hle'⟩

end Value

/-! ### Failures -/

/-- The kinds of operands that a unary operator **takes**. -/
def UnaryOp.takes : UnaryOp → Value.Kind → Bool
  | .negate, kind => kind = .number
  | .not, kind => kind = .boolean

/-- A unary operator fails **just where it does not take** its operand. -/
theorem UnaryOp.apply_eq_error_iff {op : UnaryOp} {value : Value} {failure : EvalError} :
    op.apply value = .error failure ↔
      op.takes value.kind = false ∧ failure = .kindMismatch op.symbol [value.kind] := by
  cases op <;> cases value <;> simp [apply, takes, Value.kind, eq_comm]

namespace BinaryOp

/-- Whether an operator asks which of two values comes first. -/
def isOrdering : BinaryOp → Bool
  | .less | .lessEqual | .greater | .greaterEqual => true
  | _ => false

/-- The kinds of operands that a binary operator **takes**. -/
def takes (op : BinaryOp) (left right : Value.Kind) : Bool :=
  match op with
  | .add | .subtract | .multiply | .divide | .modulo => left = .number && right = .number
  | .concat | .equal | .notEqual => true
  | .less | .lessEqual | .greater | .greaterEqual => left = right && left.hasOrder
  | .and | .or => left = .boolean && right = .boolean

/-- An operator **refuses** two values, for one of two reasons. -/
inductive Refuses (op : BinaryOp) : Value → Value → EvalError → Prop
  /-- A number is divided by zero. -/
  | zero (x : Number) {y : Number} (hop : op = .divide ∨ op = .modulo)
      (hzero : y.equals .zero = true) : Refuses op (.number x) (.number y) .divisionByZero
  /-- The values are not of the kinds that the operator takes. -/
  | kinds {left right : Value} (hkinds : op.takes left.kind right.kind = false) :
      Refuses op left right (op.mismatch left right)

section Takes

variable {op : BinaryOp} {l r : Value} {failure : EvalError}

/-- Whether a division by `y` fails, on numbers. -/
theorem zero_equals_iff {y : Number} : y.equals .zero = true ↔ y.isZero = true := by
  cases y with
  | nan => simp [Number.equals, Number.compare?, Number.isZero]
  | signed s m =>
    cases s <;> simp [Number.equals, Number.compare?, Number.zero, Number.place, Magnitude.zero,
      Number.isZero, Magnitude.isZero]

/-- Operands of kinds that an operator does not take are refused **in its name**. -/
theorem apply_of_takes_eq_false (h : op.takes l.kind r.kind = false) :
    op.apply l r = .error (op.mismatch l r) := by
  have hnumeric : ∀ calculate, (decide (l.kind = .number) && decide (r.kind = .number)) = false →
      op.applyNumeric calculate l r = .error (op.mismatch l r) := by
    intro calculate hkinds
    unfold applyNumeric
    split
    · cases hkinds
    · rfl
  have hordering : ∀ accepts, (decide (l.kind = r.kind) && l.kind.hasOrder) = false →
      op.applyOrdering accepts l r = .error (op.mismatch l r) := by
    intro accepts hkinds
    unfold applyOrdering
    cases horder : l.compare? r with
    | none => rfl
    | some order =>
      obtain ⟨hkind, hordered, -, -⟩ := Value.exists_compare?_iff.1 ⟨order, horder⟩
      simp [hkind] at hkinds
      simp [hkind, hkinds] at hordered
  have hlogical : ∀ combine, (decide (l.kind = .boolean) && decide (r.kind = .boolean)) = false →
      op.applyLogical combine l r = .error (op.mismatch l r) := by
    intro combine hkinds
    unfold applyLogical
    split
    · cases hkinds
    · rfl
  cases op with
  | add | subtract | multiply | divide | modulo => exact hnumeric _ h
  | concat | equal | notEqual => cases h
  | less | lessEqual | greater | greaterEqual => exact hordering _ h
  | and | or => exact hlogical _ h

theorem nonZero_eq_error_iff {calculate : Number → Number → Number} {x y : Number} :
    (nonZero calculate x y).map Value.number = .error failure ↔
      y.equals .zero = true ∧ failure = .divisionByZero := by
  rw [zero_equals_iff, nonZero]
  split
  · next hzero => simp [Except.map, hzero, eq_comm]
  · next hzero => simp [Except.map, hzero]

/-- Operands that an operator takes make it fail **only where a number is divided by zero**. An
ordering takes the number without value as well, but cannot place it. -/
theorem apply_eq_error_iff_of_takes (h : op.takes l.kind r.kind = true)
    (hvalue : op.isOrdering = true → l.isNan = false ∧ r.isNan = false) :
    op.apply l r = .error failure ↔ ∃ x y, l = .number x ∧ r = .number y ∧
      (op = .divide ∨ op = .modulo) ∧ y.equals .zero = true ∧ failure = .divisionByZero := by
  have hnumbers : (decide (l.kind = .number) && decide (r.kind = .number)) = true →
      ∃ x y, l = .number x ∧ r = .number y := by
    intro hkinds
    cases l <;> cases r <;> cases hkinds
    exact ⟨_, _, rfl, rfl⟩
  have hordering : ∀ accepts, (decide (l.kind = r.kind) && l.kind.hasOrder) = true →
      (l.isNan = false ∧ r.isNan = false) → op.applyOrdering accepts l r ≠ .error failure := by
    intro accepts hkinds hvalue
    simp only [Bool.and_eq_true, decide_eq_true_eq] at hkinds
    obtain ⟨order, horder⟩ := Value.exists_compare?_iff.2 ⟨hkinds.1, hkinds.2, hvalue.1, hvalue.2⟩
    rw [applyOrdering, horder]
    nofun
  have hlogical : ∀ combine, (decide (l.kind = .boolean) && decide (r.kind = .boolean)) = true →
      op.applyLogical combine l r ≠ .error failure := by
    intro combine hkinds
    cases l <;> cases r <;> cases hkinds
    nofun
  cases op with
  | add | subtract | multiply =>
    obtain ⟨x, y, rfl, rfl⟩ := hnumbers h
    simp [apply, applyNumeric, Except.map]
  | divide | modulo =>
    obtain ⟨x, y, rfl, rfl⟩ := hnumbers h
    simpa [apply, applyNumeric] using nonZero_eq_error_iff
  | concat | equal | notEqual => simp [apply]
  | less | lessEqual | greater | greaterEqual => simpa [apply] using hordering _ h (hvalue rfl)
  | and | or => simpa [apply] using hlogical _ h

/-- **Operators fail for two reasons only**, orderings with a number without value apart. -/
theorem apply_eq_error_iff (hvalue : op.isOrdering = true → l.isNan = false ∧ r.isNan = false) :
    op.apply l r = .error failure ↔ op.Refuses l r failure := by
  cases htakes : op.takes l.kind r.kind with
  | false =>
    rw [apply_of_takes_eq_false htakes]
    constructor
    · rintro ⟨⟩
      exact .kinds htakes
    · rintro (⟨x, hop, -⟩ | -)
      · rcases hop with rfl | rfl <;> cases htakes
      · rfl
  | true =>
    rw [apply_eq_error_iff_of_takes htakes hvalue]
    constructor
    · rintro ⟨x, y, rfl, rfl, hop, hzero, rfl⟩
      exact .zero x hop hzero
    · rintro (⟨x, hop, hzero⟩ | hkinds)
      · exact ⟨x, _, rfl, rfl, hop, hzero, rfl⟩
      · exact nomatch htakes.symm.trans hkinds

end Takes

end BinaryOp

/-! ### Comparisons -/

namespace Expr

/-- An operator between two literals. -/
def onLiterals (op : BinaryOp) (l r : Value) : Expr := .binary op (.literal l) (.literal r)

/-- **All comparisons** of two literals fold to what their order says. -/
structure Compares (order : Ordering) (l r : Value) : Prop where
  /-- The first comes before the second. -/
  less : fold (onLiterals .less l r) = (.literal (.bool (order = .lt)), none)
  /-- Neither comes before the other. -/
  equal : fold (onLiterals .equal l r) = (.literal (.bool (order = .eq)), none)
  /-- The first comes behind the second. -/
  greater : fold (onLiterals .greater l r) = (.literal (.bool (order = .gt)), none)
  /-- The first does not come behind the second. -/
  lessEqual : fold (onLiterals .lessEqual l r) = (.literal (.bool !(order = .gt)), none)
  /-- The first does not come before the second. -/
  greaterEqual : fold (onLiterals .greaterEqual l r) = (.literal (.bool !(order = .lt)), none)
  /-- One of them comes before the other. -/
  notEqual : fold (onLiterals .notEqual l r) = (.literal (.bool !(order = .eq)), none)

variable {order : Ordering} {l m r : Value}

theorem fold_onLiterals (op : BinaryOp) (l r : Value) :
    fold (onLiterals op l r) = replaceBy (onLiterals op l r) (op.apply l r) := rfl

theorem compares_of_compare? (h : l.compare? r = some order) : Compares order l r := by
  have hordering : ∀ {op : BinaryOp} {accepts : Ordering → Bool} {outcome : Bool},
      op.apply l r = op.applyOrdering accepts l r → accepts order = outcome →
      fold (onLiterals op l r) = (.literal (.bool outcome), none) := by
    rintro op accepts _ happly rfl
    rw [fold_onLiterals, happly, BinaryOp.applyOrdering, h]
    rfl
  have hequals := Value.equals_of_compare? h
  refine ⟨hordering rfl ?_, ?_, hordering rfl ?_, hordering rfl ?_, hordering rfl ?_, ?_⟩
  · cases order <;> rfl
  · rw [fold_onLiterals, BinaryOp.apply, hequals]
    rfl
  · cases order <;> rfl
  · cases order <;> rfl
  · cases order <;> rfl
  · rw [fold_onLiterals, BinaryOp.apply, hequals]
    rfl

/-- One order of two values **decides all comparisons**, which tell the orders apart. -/
theorem compares_iff : Compares order l r ↔ l.compare? r = some order := by
  refine ⟨fun h => ?_, compares_of_compare?⟩
  cases horder : l.compare? r with
  | none =>
    have hless := h.less
    rw [fold_onLiterals, BinaryOp.apply, BinaryOp.applyOrdering, horder] at hless
    cases hless
  | some order' =>
    have h' := compares_of_compare? horder
    have hless : decide (order = .lt) = decide (order' = .lt) := by
      simpa using h.less.symm.trans h'.less
    have hgreater : decide (order = .gt) = decide (order' = .gt) := by
      simpa using h.greater.symm.trans h'.greater
    cases order <;> cases order' <;> simp at hless hgreater ⊢

/-- **Operators on literals.** They fail for two reasons only, orderings with the number without
value apart. Of two comparable values exactly one comes first or neither does, and all six
comparisons agree on that; so they do in the other direction, and over a third value. An inequality
is the opposite of the equality for any two values. -/
theorem fold_operators :
    (∀ (op : UnaryOp) (value : Value) (failure : EvalError),
        (fold (.unary op (.literal value))).2 = some failure ↔
          op.takes value.kind = false ∧ failure = .kindMismatch op.symbol [value.kind]) ∧
      (∀ (op : BinaryOp) (l r : Value) (failure : EvalError),
        (op.isOrdering = true → l.isNan = false ∧ r.isNan = false) →
          ((fold (onLiterals op l r)).2 = some failure ↔ op.Refuses l r failure)) ∧
      (∀ l r : Value, l.Comparable r → ∃ order, Compares order l r) ∧
      (∀ (order : Ordering) (l r : Value), Compares order l r → Compares order.swap r l) ∧
      (∀ (first second : Ordering) (l m r : Value), Compares first l m → Compares second m r →
        first.isLE = true → second.isLE = true → ∃ order, Compares order l r ∧ order.isLE = true) ∧
      ∀ l r : Value, ∃ same : Bool,
        fold (onLiterals .equal l r) = (.literal (.bool same), none) ∧
          fold (onLiterals .notEqual l r) = (.literal (.bool !same), none) := by
  have hfailure : ∀ {unfolded : Expr} {result : Except EvalError Value} {failure : EvalError},
      (replaceBy unfolded result).2 = some failure ↔ result = .error failure := by
    intro unfolded result failure
    cases result <;> simp [replaceBy]
  refine ⟨fun op value failure => ?_, fun op l r failure hvalue => ?_, fun l r h => ?_,
    fun order l r h => ?_, fun first second l m r hfirst hsecond hle hle' => ?_,
    fun l r => ⟨l.equals r, rfl, rfl⟩⟩
  · exact hfailure.trans UnaryOp.apply_eq_error_iff
  · exact hfailure.trans (BinaryOp.apply_eq_error_iff hvalue)
  · obtain ⟨order, horder⟩ := Value.exists_compare?_iff.2 h
    exact ⟨order, compares_iff.2 horder⟩
  · exact compares_iff.2 (Value.compare?_swap (compares_iff.1 h))
  · obtain ⟨order, horder, hle⟩ := Value.exists_compare?_isLE (compares_iff.1 hfirst)
      (compares_iff.1 hsecond) hle hle'
    exact ⟨order, compares_iff.2 horder, hle⟩

/-- The zeros are neither before nor behind each other, and none of them divides a number. -/
theorem fold_operators_zeros :
    Compares .eq (.number (.signed true .zero)) (.number (.signed false .zero)) ∧
      (fold (onLiterals .modulo (.number (.signed false .infinity))
        (.number (.signed true .zero)))).2 = some .divisionByZero := by
  obtain ⟨-, hfails, hcompares, -⟩ := fold_operators
  obtain ⟨order, horder⟩ := hcompares (.number (.signed true .zero)) (.number (.signed false .zero))
    ⟨rfl, rfl, rfl, rfl⟩
  obtain rfl : order = .eq := Option.some.inj ((compares_iff.1 horder).symm.trans rfl)
  exact ⟨horder, (hfails _ _ _ _ (by intro h; cases h)).2 (.zero _ (.inr rfl) rfl)⟩

/-- `1e400-1e400` is the number without value. An ordering with it fails, though the operands are of
the kinds that it takes and nothing is divided, and it is not equal to any number either. -/
theorem not_compares_without_value :
    compile ⟨⟨9, 9⟩, .empty⟩ {} "1e400-1e400".toList = .ok (.literal (.number .nan)) ∧
      (fold (onLiterals .less (.number .nan) (.number .zero))).2 =
        some (.kindMismatch "<" [.number, .number]) ∧
      ¬BinaryOp.Refuses .less (.number .nan) (.number .zero)
        (.kindMismatch "<" [.number, .number]) ∧
      ¬∃ order, Compares order (.number .nan) (.number .zero) := by
  refine ⟨by cbv, rfl, ?_, ?_⟩
  · generalize hfailure : EvalError.kindMismatch "<" [.number, .number] = failure
    rintro (_ | hkinds)
    · cases hfailure
    · cases hkinds
  · rintro ⟨order, horder⟩
    exact nomatch compares_iff.1 horder

end Expr

end GridFormula
