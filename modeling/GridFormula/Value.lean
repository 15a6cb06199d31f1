import GridFormula.Number.Arithmetic
import GridFormula.Number.Notation

/-!
# Values

The constants of formulas: nothing, truth values, numbers, texts and sequences of values. A value
has two written forms. Its *literal* is formula text that stands for it; its *display* is what a
reader is shown, where a text has no quotes and nothing is written for `null`. Inside a sequence
both forms write literals.

## Main definitions

* `Value`, `Value.Kind`: the values and their kinds.
* `Value.literal`, `Value.display`: the two written forms.
* `Value.equals`: equality by value.
-/

namespace GridFormula

/-- A **value** of the formula language. -/
inductive Value where
  /-- The absence of a value. -/
  | null
  /-- A truth value. -/
  | bool (value : Bool)
  /-- A number. -/
  | number (value : Number)
  /-- A text. -/
  | text (value : String)
  /-- A row of values. -/
  | sequence (items : List Value)
deriving Inhabited

namespace Value

/-- **Induction over values**: a property of sequences follows from that of their items. -/
@[elab_as_elim, induction_eliminator]
theorem induct {motive : Value → Prop} (null : motive .null) (bool : ∀ b, motive (.bool b))
    (number : ∀ n, motive (.number n)) (text : ∀ s, motive (.text s))
    (sequence : ∀ items, (∀ item ∈ items, motive item) → motive (.sequence items)) :
    ∀ value, motive value
  | .null => null
  | .bool b => bool b
  | .number n => number n
  | .text s => text s
  | .sequence items =>
    sequence items fun item _ => induct null bool number text sequence item

/-! ### Kinds -/

/-- The **kinds** of values, which operators tell apart. -/
inductive Kind where
  /-- The kind of `null`. -/
  | null
  /-- The kind of truth values. -/
  | boolean
  /-- The kind of numbers. -/
  | number
  /-- The kind of texts. -/
  | string
  /-- The kind of sequences. -/
  | sequence
deriving DecidableEq

/-- The word for a kind. -/
def Kind.name : Kind → String
  | .null => "null"
  | .boolean => "boolean"
  | .number => "number"
  | .string => "string"
  | .sequence => "sequence"

/-- The kind of a value. -/
def kind : Value → Kind
  | .null => .null
  | .bool _ => .boolean
  | .number _ => .number
  | .text _ => .string
  | .sequence _ => .sequence

/-! ### Written forms -/

/-- A truth value in letters. -/
def boolText (b : Bool) : List Char :=
  if b then "true".toList else "false".toList

/-- A text between double quotes, with a backslash before each quote and each backslash. -/
def quoted (text : List Char) : List Char :=
  '"' :: text.flatMap (fun c => if c = '"' || c = '\\' then ['\\', c] else [c]) ++ ['"']

mutual

/-- The **literal** of a value: formula text that stands for it. -/
def literal : Value → List Char
  | .null => "null".toList
  | .bool b => boolText b
  | .number n => n.text
  | .text s => quoted s.toList
  | .sequence items => '[' :: literals items ++ [']']

/-- The literals of a row of values, with commas between them. -/
def literals : List Value → List Char
  | [] => []
  | [item] => item.literal
  | item :: others => item.literal ++ ',' :: literals others

end

/-- The **display** of a value: its plain text. -/
def display : Value → List Char
  | .null => []
  | .bool b => boolText b
  | .number n => n.text
  | .text s => s.toList
  | .sequence items => '[' :: literals items ++ [']']

/-! ### Equality -/

mutual

/-- The **equality by value**: numbers are compared as numbers, so the zeros are equal and a number
without value differs from itself, also inside sequences. -/
def equals : Value → Value → Bool
  | .null, .null => true
  | .bool a, .bool b => a == b
  | .number x, .number y => x.equals y
  | .text s, .text t => s == t
  | .sequence xs, .sequence ys => allEqual xs ys
  | _, _ => false
termination_by structural x => x

/-- Equality of two rows of values, item by item. -/
def allEqual : List Value → List Value → Bool
  | [], [] => true
  | x :: xs, y :: ys => x.equals y && allEqual xs ys
  | _, _ => false
termination_by structural x => x

end

end Value

end GridFormula
