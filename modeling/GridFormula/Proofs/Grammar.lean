import GridFormula.Expr.Compile
import GridFormula.Expr.Induction
import GridFormula.Proofs.FullSplit
import GridFormula.Proofs.Spelling

/-!
# Grammar

The grammar of formulas, as a relation between rows of items and expressions. Operators are
layered by precedence: an operand of an operator is a chain of tighter operators, and the left one
may also be a chain of operators of the same precedence. The argument text of a call is split first,
and every piece is a formula of its own.

## Main definitions

* `Category`: the kinds of phrases.
* `StandsFor`: what a bare name means.
* `Derives`: the grammar.
* `Reads`: a whole text that is an expression by the grammar.
* `Expr.settled`: what reading makes of the expression that the grammar gives.
-/

namespace GridFormula

/-! ### Phrases -/

/-- The **categories** of phrases. -/
inductive Category where
  /-- Operands with binary operators of at least this precedence between them. -/
  | chain (precedence : Nat)
  /-- Unary operators with what they stand before. -/
  | operand
  /-- Something with the members that follow it. -/
  | target
  /-- Something without members. -/
  | atom
  /-- The expressions of a sequence, of which there is at least one. -/
  | elements

/-- A **piece** of argument text, with the items that it spells and the expression that it is. -/
structure Piece where
  /-- The text of the piece. -/
  text : List Char
  /-- The items that it spells. -/
  items : List Item
  /-- The expression that it is. -/
  value : Expr

/-- The token of a unary operator. -/
def UnaryOp.token : UnaryOp → Token
  | .negate => .operator .subtract
  | .not => .bang

/-- The constant that a name is. -/
def keyword? (n : String) : Option Value :=
  if n = "true" then some (.bool true)
  else if n = "false" then some (.bool false)
  else if n = "null" then some .null
  else none

/-- There are three constants. -/
theorem keyword?_cases {n : String} {value : Value} (h : keyword? n = some value) :
    n = "true" ∧ value = .bool true ∨ n = "false" ∧ value = .bool false ∨
      n = "null" ∧ value = .null := by
  unfold keyword? at h
  split at h
  · next hn => exact .inl ⟨hn, (Option.some.inj h).symm⟩
  · split at h
    · next hn => exact .inr (.inl ⟨hn, (Option.some.inj h).symm⟩)
    · split at h
      · next hn => exact .inr (.inr ⟨hn, (Option.some.inj h).symm⟩)
      · cases h

theorem ne_of_keyword? {n : String} (h : keyword? n = none) :
    n ≠ "true" ∧ n ≠ "false" ∧ n ≠ "null" := by
  unfold keyword? at h
  split at h
  · cases h
  · next htrue =>
    split at h
    · cases h
    · next hfalse =>
      split at h
      · cases h
      · next hnull => exact ⟨htrue, hfalse, hnull⟩

/-- What a bare name **stands for**. -/
inductive StandsFor (grid : Grid) (n : String) : Expr → Prop
  /-- A constant. -/
  | constant {value : Value} : keyword? n = some value → StandsFor grid n (.literal value)
  /-- A cell of the grid. -/
  | cell {c : Cell} : keyword? n = none → grid.cell? n.toList = some c → StandsFor grid n (.cell c)
  /-- Anything else, when it has no marker of cells. -/
  | name : keyword? n = none → grid.cell? n.toList = none → '$' ∉ n.toList →
      StandsFor grid n (.name n)

/-- The **grammar**: the expressions that a row of items is, as a phrase of some category. -/
inductive Derives (grid : Grid) : Category → List Item → Expr → Prop
  /-- A number. -/
  | number {n : Number} : Derives grid .atom [.token (.number n)] (.literal (.number n))
  /-- A text. -/
  | text {s : String} : Derives grid .atom [.token (.text s)] (.literal (.text s))
  /-- A field name between apostrophes. -/
  | field {n : String} : Derives grid .atom [.token (.field n)] (.field n)
  /-- The current row. -/
  | hash : Derives grid .atom [.token .hash] .currentRow
  /-- A bare name: a constant, a cell of the grid or a name. -/
  | name {n : String} {e : Expr} : StandsFor grid n e →
      Derives grid .atom [.token (.name n)] e
  /-- An expression between parentheses. -/
  | paren {items : List Item} {e : Expr} : Derives grid (.chain 1) items e →
      Derives grid .atom (.token .roundOpen :: (items ++ [.token .roundClose])) (.paren e)
  /-- A sequence of no expressions. -/
  | empty : Derives grid .atom [.token .squareOpen, .token .squareClose] (.sequence [])
  /-- A sequence. -/
  | sequence {items : List Item} {es : List Expr} : Derives grid .elements items (.sequence es) →
      Derives grid .atom (.token .squareOpen :: (items ++ [.token .squareClose])) (.sequence es)
  /-- A call. The pieces of its argument text are those of the full split. -/
  | call {n : String} {arguments : List Char} {pieces : ArgTree Piece} :
      pieces.map Piece.text = ArgTree.fullSplit arguments →
      (∀ piece ∈ pieces.expressions, Spelled piece.text piece.items) →
      (∀ piece ∈ pieces.expressions, Derives grid (.chain 1) piece.items piece.value) →
        Derives grid .atom [.call n arguments] (.call n (pieces.map Piece.value))
  /-- Something without members. -/
  | ofAtom {items : List Item} {e : Expr} : Derives grid .atom items e →
      Derives grid .target items e
  /-- A member. -/
  | member {items : List Item} {e : Expr} {n : String} : Derives grid .target items e →
      Derives grid .target (items ++ [.token .dot, .token (.name n)]) (.member e n)
  /-- A call of a member. -/
  | memberCall {items : List Item} {e : Expr} {n : String} {arguments : List Char}
      {pieces : ArgTree Piece} : Derives grid .target items e →
      pieces.map Piece.text = ArgTree.fullSplit arguments →
      (∀ piece ∈ pieces.expressions, Spelled piece.text piece.items) →
      (∀ piece ∈ pieces.expressions, Derives grid (.chain 1) piece.items piece.value) →
        Derives grid .target (items ++ [.token .dot, .call n arguments])
          (.memberCall e n (pieces.map Piece.value))
  /-- No unary operator. -/
  | ofTarget {items : List Item} {e : Expr} : Derives grid .target items e →
      Derives grid .operand items e
  /-- A unary operator before an operand. -/
  | unary {op : UnaryOp} {items : List Item} {e : Expr} : Derives grid .operand items e →
      Derives grid .operand (.token op.token :: items) (.unary op e)
  /-- A chain of one operand; no operator is as tight as seven. -/
  | ofOperand {items : List Item} {e : Expr} : Derives grid .operand items e →
      Derives grid (.chain 7) items e
  /-- A chain of tighter operators. -/
  | ofTighter {p : Nat} {items : List Item} {e : Expr} : Derives grid (.chain (p + 1)) items e →
      Derives grid (.chain p) items e
  /-- A binary operator between a chain and a tighter one. -/
  | binary {op : BinaryOp} {first second : List Item} {left right : Expr} :
      Derives grid (.chain op.precedence) first left →
      Derives grid (.chain (op.precedence + 1)) second right →
        Derives grid (.chain op.precedence) (first ++ .token (.operator op) :: second)
          (.binary op left right)
  /-- The last expression of a sequence. -/
  | element {items : List Item} {e : Expr} : Derives grid (.chain 1) items e →
      Derives grid .elements items (.sequence [e])
  /-- An expression of a sequence with more behind it. -/
  | elements {first second : List Item} {e : Expr} {es : List Expr} :
      Derives grid (.chain 1) first e → Derives grid .elements second (.sequence es) →
        Derives grid .elements (first ++ .token .comma :: second) (.sequence (e :: es))

/-- A text **reads** as an expression. -/
def Reads (grid : Grid) (text : List Char) (e : Expr) : Prop :=
  ∃ items, Spelled text items ∧ Derives grid (.chain 1) items e

/-! ### Settling -/

namespace Expr

/-- The expression with its constants folded, if that is asked for. -/
def finished (optimize : Bool) (e : Expr) : Expr := if optimize then e.fold.1 else e

/-- What reading **settles** on: the expressions in arguments are finished before what they stand
in. -/
def settled (optimize : Bool) (e : Expr) : Expr :=
  (e.within (finished optimize)).finished optimize

/-- Without folding an expression is settled as it is. -/
theorem settled_false (e : Expr) : e.settled false = e := within_id e

theorem ofName_eq_ok_iff {grid : Grid} {n : String} {span : Span} {e : Expr} :
    ofName grid n span = .ok e ↔ StandsFor grid n e := by
  constructor
  · intro h
    unfold ofName at h
    split at h
    · next hn =>
      cases h
      exact .constant (by simp [keyword?, hn])
    · next htrue =>
      split at h
      · next hn =>
        cases h
        exact .constant (by simp [keyword?, hn])
      · next hfalse =>
        split at h
        · next hn =>
          cases h
          exact .constant (by simp [keyword?, hn])
        · next hnull =>
          have hkeyword : keyword? n = none := by simp [keyword?, htrue, hfalse, hnull]
          split at h
          · next c hcell =>
            cases h
            exact .cell hkeyword hcell
          · next hcell =>
            split at h
            · cases h
            · next hdollar =>
              cases h
              exact .name hkeyword hcell (by simpa using hdollar)
  · intro h
    cases h with
    | constant hn => rcases keyword?_cases hn with ⟨rfl, rfl⟩ | ⟨rfl, rfl⟩ | ⟨rfl, rfl⟩ <;> rfl
    | cell hn hcell =>
      obtain ⟨htrue, hfalse, hnull⟩ := ne_of_keyword? hn
      rw [ofName, if_neg htrue, if_neg hfalse, if_neg hnull, hcell]
    | name hn hcell hdollar =>
      obtain ⟨htrue, hfalse, hnull⟩ := ne_of_keyword? hn
      rw [ofName, if_neg htrue, if_neg hfalse, if_neg hnull, hcell]
      exact if_neg (by simpa using hdollar)

end Expr

end GridFormula
