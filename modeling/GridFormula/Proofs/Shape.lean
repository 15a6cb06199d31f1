import GridFormula.Proofs.Arguments
import GridFormula.Proofs.Folding

/-!
# The shape of expressions

An expression is written without parentheses of its own, so not every expression can be read back:
an operand that binds less tightly than its operator would be taken apart. Expressions that were
read have a shape in which this does not happen, and folding keeps the shape, because it puts
nothing in place of an operand but a literal.

## Main definitions

* `Expr.tightness`: how tightly the text of an expression holds together.
* `Expr.WellFormed`: what is asked of the nodes of an expression.

## Main results

* `Expr.everywhere_of_derives`: what the grammar gives is well-formed everywhere.
* `Expr.everywhere_settled`: so is what it settles on.
-/

namespace GridFormula

open Text (allBlank)

/-- A text that is a **name**: it could stand in a formula without quotation marks. -/
def IsName (n : String) : Prop :=
  ∃ c rest, n.toList = c :: rest ∧ c.isDigit = false ∧ Lexeme.isNameStart c = true ∧
    ∀ d ∈ rest, Lexeme.isNamePart d = true

theorem isName_of_made {source behind : List Char} {n : String}
    (h : Lexeme.Made source (.name n) behind) : IsName n := by
  cases h with
  | sign hmem =>
    have hnone : ∀ sign ∈ Lexeme.signs, ∀ n, sign.2 ≠ .name n := by simp [Lexeme.signs]
    exact absurd rfl (hnone _ hmem n)
  | @name c rest _ hdigit hstart hrest _ =>
    exact ⟨c, rest, String.toList_ofList, hdigit, hstart, hrest⟩

section Spells

variable {text behind : List Char}

theorem Spells.behind_token {t : Token} {items : List Item}
    (h : Spells (.token t :: items) text behind) : ∃ rest, Spells items rest behind := by
  obtain ⟨_, _, rest, -, -, -, hrest⟩ := exists_of_spells_token h
  exact ⟨rest, hrest⟩

theorem Spells.isName {n : String} (h : Spells [.token (.name n)] text behind) : IsName n := by
  obtain ⟨_, _, _, -, -, hmade, -⟩ := exists_of_spells_token h
  exact isName_of_made hmade

theorem Spells.isName_call {n : String} {arguments : List Char}
    (h : Spells [.call n arguments] text behind) : IsName n := by
  cases h with
  | call _ _ hword _ _ => exact isName_of_made (Lexeme.made_of_word hword)

/-- No numeral has a sign. -/
theorem Spells.exists_magnitude {n : Number} (h : Spells [.token (.number n)] text behind) :
    ∃ m, n = .signed false m := by
  obtain ⟨_, _, _, -, -, hmade, -⟩ := exists_of_spells_token h
  cases hmade with
  | sign hmem =>
    have hnone : ∀ sign ∈ Lexeme.signs, ∀ n, sign.2 ≠ .number n := by simp [Lexeme.signs]
    exact absurd rfl (hnone _ hmem n)
  | @number _ _ _ m => exact ⟨m, rfl⟩

end Spells

/-- The tightness that is asked of a phrase. -/
def Category.tightness : Category → Nat
  | .chain p => p
  | .operand => 7
  | .target => 8
  | .atom => 8
  | .elements => 0

namespace Expr

/-- How **tightly** the text of an expression holds together: a binary operator as tightly as it
binds, an expression with a sign in front more tightly, and anything else most tightly. -/
def tightness : Expr → Nat
  | .literal (.number (.signed true _)) => 7
  | .unary _ _ => 7
  | .binary op _ _ => op.precedence
  | _ => 8

/-- An expression **holds** at some tightness when it is as tight, or a literal. -/
def Holds (p : Nat) (e : Expr) : Prop := p ≤ e.tightness ∨ ∃ value, e = .literal value

/-- A **well-formed** node: its names and its arguments are such as texts have, and its operands
hold. -/
def WellFormed (grid : Grid) : Expr → Prop
  | .name n => IsName n ∧ StandsFor grid n (.name n)
  | .cell c => ∃ n, grid.cell? n = some c
  | .call n arguments => IsName n ∧ arguments.Graded [.semicolon, .comma, .colon]
  | .member target n => IsName n ∧ Holds 8 target
  | .memberCall target n arguments =>
    IsName n ∧ Holds 8 target ∧ arguments.Graded [.semicolon, .comma, .colon]
  | .unary _ operand => Holds 7 operand
  | .binary op left right => Holds op.precedence left ∧ Holds (op.precedence + 1) right
  | _ => True

/-! ### Expressions of the grammar -/

/-- A node as it is **read**: well-formed, and no literal that is read as something else. -/
structure AsRead (grid : Grid) (e : Expr) : Prop where
  /-- The node is well-formed. -/
  wellFormed : WellFormed grid e
  /-- The node is primitive. -/
  primitive : Primitive e

theorem AsRead.of_not_literal {grid : Grid} {e : Expr} (h : WellFormed grid e)
    (hliteral : ∀ value, e ≠ .literal value) : AsRead grid e :=
  ⟨h, fun value heq => absurd heq (hliteral value)⟩

theorem asRead_literal {grid : Grid} {value : Value} (h : value.unfolded = .literal value) :
    AsRead grid (.literal value) :=
  ⟨trivial, fun value' heq => by cases heq; exact h⟩

theorem graded_of_pieces {arguments : List Char} {pieces : ArgTree Piece}
    (htext : pieces.map Piece.text = ArgTree.fullSplit arguments) :
    (pieces.map Piece.value).Graded [.semicolon, .comma, .colon] := by
  have hsplit := ArgTree.graded_fullSplit arguments
  rw [← htext] at hsplit
  exact hsplit.of_map.map Piece.value

theorem everywhere_of_pieces {grid : Grid} {pieces : ArgTree Piece}
    (hspelled : ∀ piece ∈ pieces.expressions, Spelled piece.text piece.items)
    (hread : ∀ piece ∈ pieces.expressions, ∀ {text behind}, Spells piece.items text behind →
      piece.value.Everywhere (AsRead grid) ∧
        (Category.chain 1).tightness ≤ piece.value.tightness) :
    ∀ e ∈ (pieces.map Piece.value).expressions, e.Everywhere (AsRead grid) := by
  intro e he
  rw [ArgTree.expressions_map] at he
  obtain ⟨piece, hpiece, rfl⟩ := List.mem_map.1 he
  obtain ⟨spelling, blanks, -, -, hspells⟩ := hspelled piece hpiece
  exact (hread piece hpiece hspells).1

/-- What the grammar gives is **as read everywhere**, and as tight as the phrase is asked to be. -/
theorem everywhere_of_derives {grid : Grid} {category : Category} {items : List Item} {r : Expr}
    (h : Derives grid category items r) {text behind : List Char}
    (hspells : Spells items text behind) :
    r.Everywhere (AsRead grid) ∧ category.tightness ≤ r.tightness := by
  induction h generalizing text behind with
  | number =>
    obtain ⟨m, rfl⟩ := hspells.exists_magnitude
    rw [everywhere_literal]
    exact ⟨asRead_literal rfl, Nat.le_refl 8⟩
  | text =>
    rw [everywhere_literal]
    exact ⟨asRead_literal rfl, Nat.le_refl 8⟩
  | field =>
    rw [everywhere_field]
    exact ⟨.of_not_literal trivial nofun, Nat.le_refl 8⟩
  | hash =>
    rw [everywhere_currentRow]
    exact ⟨.of_not_literal trivial nofun, Nat.le_refl 8⟩
  | name hstands =>
    have hn := hspells.isName
    cases hstands with
    | constant hkeyword =>
      rw [everywhere_literal]
      rcases keyword?_cases hkeyword with ⟨-, rfl⟩ | ⟨-, rfl⟩ | ⟨-, rfl⟩ <;>
        exact ⟨asRead_literal rfl, Nat.le_refl 8⟩
    | cell _ hcell =>
      rw [everywhere_cell]
      exact ⟨.of_not_literal ⟨_, hcell⟩ nofun, Nat.le_refl 8⟩
    | name hkeyword hcell hdollar =>
      rw [everywhere_name]
      exact ⟨.of_not_literal ⟨hn, .name hkeyword hcell hdollar⟩ nofun, Nat.le_refl 8⟩
  | paren _ ih =>
    obtain ⟨_, hrest⟩ := hspells.behind_token
    obtain ⟨_, _, -, hinner, -⟩ := hrest.split
    rw [everywhere_paren]
    exact ⟨⟨.of_not_literal trivial nofun, (ih hinner).1⟩, Nat.le_refl 8⟩
  | empty =>
    rw [everywhere_sequence]
    exact ⟨⟨.of_not_literal trivial nofun, nofun⟩, Nat.le_refl 8⟩
  | sequence _ ih =>
    obtain ⟨_, hrest⟩ := hspells.behind_token
    obtain ⟨_, _, -, hinner, -⟩ := hrest.split
    exact ⟨(ih hinner).1, Nat.le_refl 8⟩
  | call htext hspelled _ ih =>
    rw [everywhere_call]
    exact ⟨⟨.of_not_literal ⟨hspells.isName_call, graded_of_pieces htext⟩ nofun,
      everywhere_of_pieces hspelled ih⟩, Nat.le_refl 8⟩
  | ofAtom _ ih => exact ih hspells
  | member _ ih =>
    obtain ⟨_, _, -, hfirst, hsecond⟩ := hspells.split
    obtain ⟨_, hrest⟩ := hsecond.behind_token
    obtain ⟨htarget, htight⟩ := ih hfirst
    rw [everywhere_member]
    exact ⟨⟨.of_not_literal ⟨hrest.isName, .inl htight⟩ nofun, htarget⟩, Nat.le_refl 8⟩
  | memberCall _ htext hspelled _ ih ihpieces =>
    obtain ⟨_, _, -, hfirst, hsecond⟩ := hspells.split
    obtain ⟨_, hrest⟩ := hsecond.behind_token
    obtain ⟨htarget, htight⟩ := ih hfirst
    rw [everywhere_memberCall]
    exact ⟨⟨.of_not_literal ⟨hrest.isName_call, .inl htight, graded_of_pieces htext⟩ nofun, htarget,
      everywhere_of_pieces hspelled ihpieces⟩, Nat.le_refl 8⟩
  | ofTarget _ ih =>
    obtain ⟨hread, htight⟩ := ih hspells
    exact ⟨hread, Nat.le_trans (Nat.le_succ 7) htight⟩
  | unary _ ih =>
    obtain ⟨_, hrest⟩ := hspells.behind_token
    obtain ⟨hread, htight⟩ := ih hrest
    rw [everywhere_unary]
    exact ⟨⟨.of_not_literal (.inl htight) nofun, hread⟩, Nat.le_refl 7⟩
  | ofOperand _ ih => exact ih hspells
  | ofTighter _ ih =>
    obtain ⟨hread, htight⟩ := ih hspells
    exact ⟨hread, Nat.le_of_succ_le htight⟩
  | binary _ _ ihleft ihright =>
    obtain ⟨_, _, -, hfirst, hsecond⟩ := hspells.split
    obtain ⟨_, hrest⟩ := hsecond.behind_token
    obtain ⟨hleft, htight⟩ := ihleft hfirst
    obtain ⟨hright, htight'⟩ := ihright hrest
    rw [everywhere_binary]
    exact ⟨⟨.of_not_literal ⟨.inl htight, .inl htight'⟩ nofun, hleft, hright⟩, Nat.le_refl _⟩
  | element _ ih =>
    rw [everywhere_sequence]
    exact ⟨⟨.of_not_literal trivial nofun, by simpa using (ih hspells).1⟩, Nat.zero_le _⟩
  | elements _ _ ihfirst ihothers =>
    obtain ⟨_, _, -, hfirst, hsecond⟩ := hspells.split
    obtain ⟨_, hrest⟩ := hsecond.behind_token
    have hothers := (ihothers hrest).1
    rw [everywhere_sequence] at hothers ⊢
    exact ⟨⟨.of_not_literal trivial nofun,
      List.forall_mem_cons.2 ⟨(ihfirst hfirst).1, hothers.2⟩⟩, Nat.zero_le _⟩

/-! ### Folding keeps the shape -/

theorem tightness_within (finish : Expr → Expr) (e : Expr) :
    (e.within finish).tightness = e.tightness := by
  cases e <;> rfl

theorem Holds.within {p : Nat} {e : Expr} (h : Holds p e) (finish : Expr → Expr) :
    Holds p (e.within finish) := by
  rcases h with h | ⟨value, rfl⟩
  · exact .inl (tightness_within finish e ▸ h)
  · exact .inr ⟨value, rfl⟩

/-- Folding gives a literal, or something as tight as before. -/
theorem tightness_fold (e : Expr) :
    (∃ value, (fold e).1 = .literal value) ∨ (fold e).1.tightness = e.tightness := by
  cases e with
  | literal value => exact .inl ⟨value, rfl⟩
  | name | field | currentRow | cell | call => exact .inr rfl
  | sequence items =>
    rcases fold_sequence_cases items with ⟨values, -, heq⟩ | heq
    · exact .inl ⟨_, heq⟩
    · exact .inr (by rw [heq]; rfl)
  | paren inner =>
    rcases fold_paren_cases inner with ⟨value, -, heq⟩ | heq
    · exact .inl ⟨_, heq⟩
    · exact .inr (by rw [heq]; rfl)
  | member target n => exact .inr (by rw [fold_member]; rfl)
  | memberCall target n arguments =>
    obtain ⟨arguments', -, heq⟩ := fold_memberCall_cases target n arguments
    exact .inr (by rw [heq]; rfl)
  | unary op operand =>
    rcases fold_unary_cases op operand with ⟨value, -, heq⟩ | heq
    · exact .inl ⟨_, heq⟩
    · exact .inr (by rw [heq]; rfl)
  | binary op left right =>
    rcases fold_binary_cases op left right with ⟨value, -, heq⟩ | ⟨right', -, heq⟩
    · exact .inl ⟨_, heq⟩
    · exact .inr (by rw [heq]; rfl)

/-- Folding an operand does not make it **hold** less tightly. -/
theorem Holds.fold {p : Nat} {e : Expr} (h : Holds p e) : Holds p (fold e).1 := by
  rcases h with h | ⟨value, rfl⟩
  · rcases tightness_fold e with hliteral | htight
    · exact .inr hliteral
    · exact .inl (htight ▸ h)
  · exact .inr ⟨value, rfl⟩

section Shape

variable {grid : Grid}

theorem everywhere_foldArguments {arguments : ArgTree Expr}
    (h : ∀ e ∈ arguments.expressions, (fold e).1.Everywhere (WellFormed grid)) :
    ∀ e ∈ (foldArguments arguments).expressions, e.Everywhere (WellFormed grid) := by
  intro e he
  rw [foldArguments_eq_map, ArgTree.expressions_map] at he
  obtain ⟨e', he', rfl⟩ := List.mem_map.1 he
  exact h e' he'

/-- Folding keeps expressions **well-formed everywhere**. -/
theorem everywhere_fold {e : Expr} (h : e.Everywhere (WellFormed grid)) :
    (fold e).1.Everywhere (WellFormed grid) := by
  induction e with
  | literal | name | field | currentRow | cell => exact h
  | sequence items ih =>
    rw [everywhere_sequence] at h
    rcases fold_sequence_cases items with ⟨values, -, heq⟩ | heq
    · rw [heq, everywhere_literal]
      trivial
    · rw [heq, everywhere_sequence]
      refine ⟨trivial, fun e he => ?_⟩
      obtain ⟨item, hitem, rfl | rfl⟩ := exists_of_mem_foldItems he
      · exact h.2 e hitem
      · exact ih item hitem (h.2 item hitem)
  | paren inner ih =>
    rw [everywhere_paren] at h
    rcases fold_paren_cases inner with ⟨value, -, heq⟩ | heq
    · rw [heq, everywhere_literal]
      trivial
    · rw [heq, everywhere_paren]
      exact ⟨trivial, ih h.2⟩
  | call function arguments ih =>
    rw [everywhere_call] at h
    rw [fold, everywhere_call]
    refine ⟨⟨h.1.1, ?_⟩, everywhere_foldArguments fun e he => ih e he (h.2 e he)⟩
    rw [foldArguments_eq_map]
    exact h.1.2.map _
  | member target n ih =>
    rw [everywhere_member] at h
    rw [fold_member, everywhere_member]
    exact ⟨⟨h.1.1, h.1.2.fold⟩, ih h.2⟩
  | memberCall target n arguments ih iharguments =>
    rw [everywhere_memberCall] at h
    obtain ⟨arguments', harguments', heq⟩ := fold_memberCall_cases target n arguments
    rw [heq, everywhere_memberCall]
    rcases harguments' with rfl | rfl
    · exact ⟨⟨h.1.1, h.1.2.1.fold, h.1.2.2⟩, ih h.2.1, h.2.2⟩
    · refine ⟨⟨h.1.1, h.1.2.1.fold, ?_⟩, ih h.2.1,
        everywhere_foldArguments fun e he => iharguments e he (h.2.2 e he)⟩
      rw [foldArguments_eq_map]
      exact h.1.2.2.map _
  | unary op operand ih =>
    rw [everywhere_unary] at h
    rcases fold_unary_cases op operand with ⟨value, -, heq⟩ | heq
    · rw [heq, everywhere_literal]
      trivial
    · rw [heq, everywhere_unary]
      exact ⟨h.1.fold, ih h.2⟩
  | binary op left right ihl ihr =>
    rw [everywhere_binary] at h
    rcases fold_binary_cases op left right with ⟨value, -, heq⟩ | ⟨right', hright', heq⟩
    · rw [heq, everywhere_literal]
      trivial
    · rw [heq, everywhere_binary]
      rcases hright' with rfl | rfl
      · exact ⟨⟨h.1.1.fold, h.1.2⟩, ihl h.2.1, h.2.2⟩
      · exact ⟨⟨h.1.1.fold, h.1.2.fold⟩, ihl h.2.1, ihr h.2.2⟩

theorem everywhere_finished {e : Expr} (h : e.Everywhere (WellFormed grid)) (optimize : Bool) :
    (e.finished optimize).Everywhere (WellFormed grid) := by
  cases optimize with
  | false => exact h
  | true => exact everywhere_fold h

/-- Finishing the expressions in arguments keeps expressions well-formed everywhere. -/
theorem everywhere_within {e : Expr} (h : e.Everywhere (WellFormed grid)) (optimize : Bool) :
    (e.within (finished optimize)).Everywhere (WellFormed grid) := by
  have harguments : ∀ {arguments : ArgTree Expr},
      (∀ e ∈ arguments.expressions,
        (e.within (finished optimize)).Everywhere (WellFormed grid)) →
        ∀ e ∈ (argumentsWithin (finished optimize) arguments).expressions,
          e.Everywhere (WellFormed grid) := by
    intro arguments h e he
    rw [argumentsWithin_eq_map, ArgTree.expressions_map] at he
    obtain ⟨e', he', rfl⟩ := List.mem_map.1 he
    exact everywhere_finished (h e' he') optimize
  induction e with
  | literal | name | field | currentRow | cell => exact h
  | sequence items ih =>
    rw [everywhere_sequence] at h
    rw [within, everywhere_sequence, itemsWithin_eq_map]
    exact ⟨trivial, List.forall_mem_map.2 fun item hitem => ih item hitem (h.2 item hitem)⟩
  | paren inner ih =>
    rw [everywhere_paren] at h
    rw [within, everywhere_paren]
    exact ⟨trivial, ih h.2⟩
  | call function arguments ih =>
    rw [everywhere_call] at h
    rw [within, everywhere_call]
    refine ⟨⟨h.1.1, ?_⟩, harguments fun e he => ih e he (h.2 e he)⟩
    rw [argumentsWithin_eq_map]
    exact h.1.2.map _
  | member target n ih =>
    rw [everywhere_member] at h
    rw [within, everywhere_member]
    exact ⟨⟨h.1.1, h.1.2.within _⟩, ih h.2⟩
  | memberCall target n arguments ih iharguments =>
    rw [everywhere_memberCall] at h
    rw [within, everywhere_memberCall]
    refine ⟨⟨h.1.1, h.1.2.1.within _, ?_⟩, ih h.2.1,
      harguments fun e he => iharguments e he (h.2.2 e he)⟩
    rw [argumentsWithin_eq_map]
    exact h.1.2.2.map _
  | unary op operand ih =>
    rw [everywhere_unary] at h
    rw [within, everywhere_unary]
    exact ⟨h.1.within _, ih h.2⟩
  | binary op left right ihl ihr =>
    rw [everywhere_binary] at h
    rw [within, everywhere_binary]
    exact ⟨⟨h.1.1.within _, h.1.2.within _⟩, ihl h.2.1, ihr h.2.2⟩

/-- What an expression settles on is **well-formed everywhere** if the expression is. -/
theorem everywhere_settled {e : Expr} (h : e.Everywhere (WellFormed grid)) (optimize : Bool) :
    (e.settled optimize).Everywhere (WellFormed grid) :=
  everywhere_finished (everywhere_within h optimize) optimize

/-- What a text reads as is **as read everywhere**. -/
theorem everywhere_of_reads {text : List Char} {r : Expr} (h : Reads grid text r) :
    r.Everywhere (AsRead grid) := by
  obtain ⟨items, ⟨spelling, blanks, -, -, hspells⟩, hderives⟩ := h
  exact (everywhere_of_derives hderives hspells).1

end Shape

end Expr

end GridFormula
