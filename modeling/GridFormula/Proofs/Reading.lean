import GridFormula.ArgTree.Zip
import GridFormula.Expr.Progress
import GridFormula.Proofs.Chains
import GridFormula.Proofs.Grammar

/-!
# Reading by the grammar

The readers of expressions go through the grammar: what they accept is derived, and what is derived
is read, as long as it does not nest too deeply. Both directions are inductions, one along the
readers and one along the derivation, and they meet at the pieces of argument text, which are
formulas of their own.

## Main definitions

* `Nested`: phrases that nest at most so many levels.
* `Expr.Sound`: readers that take phrases off their stream.
* `Expr.Readable`: phrases that the readers take.

## Main results

* `Expr.readAt_eq_ok_iff`: a text is read exactly when the grammar reads it.
* `Expr.reads_unique`: the grammar is unambiguous.
-/

namespace GridFormula

/-- A phrase is **nested** at most `n` levels deep. -/
structure Nested (grid : Grid) (n : Nat) (category : Category) (items : List Item) (e : Expr) :
    Prop where
  /-- The items are a phrase by the grammar. -/
  derives : Derives grid category items e
  /-- Nothing in it stands deeper. -/
  nesting_le : e.nesting ≤ n

namespace Expr

open TokenStream (Takes)

/-- What happened before a step that succeeds succeeded. -/
theorem exists_of_bind {α β : Type} {x : Except Error α} {f : α → Except Error β} {b : β}
    (h : (x >>= f) = .ok b) : ∃ a, x = .ok a ∧ f a = .ok b := by
  cases x with
  | error => cases h
  | ok a => exact ⟨a, rfl, h⟩

theorem exists_of_behindRoundClose {s last : TokenStream} (h : s.behindRoundClose = .ok last) :
    ∃ span, s = .token .roundClose span last := by
  unfold TokenStream.behindRoundClose at h
  split at h <;> cases h
  exact ⟨_, rfl⟩

theorem exists_of_behindSquareClose {s last : TokenStream} (h : s.behindSquareClose = .ok last) :
    ∃ span, s = .token .squareClose span last := by
  unfold TokenStream.behindSquareClose at h
  split at h <;> cases h
  exact ⟨_, rfl⟩

/-- The reader for what is nested in an operand with `n` levels left, if there are any. -/
def deeperAt (grid : Grid) (optimize : Bool) : Nat → Option Reader
  | 0 => none
  | n + 1 => some (operandAt grid optimize n)

theorem operandAt_eq (grid : Grid) (optimize : Bool) (n : Nat) :
    operandAt grid optimize n = operand grid optimize (deeperAt grid optimize n) := by
  cases n <;> rfl

/-! ### Soundness -/

/-- A reader is **sound** when what it takes off a stream is a phrase. -/
def Sound (grid : Grid) (optimize : Bool) (n : Nat) (category : Category) (reader : Reader) :
    Prop :=
  ∀ {s e last}, reader s = .ok (e, last) →
    ∃ items r, s.Takes items last ∧ Nested grid n category items r ∧
      e = r.within (finished optimize)

section Soundness

variable {grid : Grid} {optimize : Bool} {n : Nat}

theorem exists_of_operations {reader : Reader} (hreader : Sound grid optimize n .operand reader)
    {s last : TokenStream} {others : Operations}
    (h : operations reader s = .ok (others, last)) :
    ∃ items others', s.Takes items last ∧ Tail (Nested grid n (.chain 7)) items others' ∧
      others = others'.map (Prod.map id (within (finished optimize))) := by
  fun_induction operations reader s generalizing others last with
  | case1 => cases h
  | case2 => cases h
  | case3 op span rest e behind hread hlt others last' hrec ih =>
    cases h
    obtain ⟨first, r, hfirst, ⟨hderives, hnesting⟩, rfl⟩ := hreader hread
    obtain ⟨second, others', hsecond, htail, rfl⟩ := ih hrec
    exact ⟨_, _, .token (hfirst.append hsecond), .cons ⟨.ofOperand hderives, hnesting⟩ htail, rfl⟩
  | case4 op span rest e behind hread hlt =>
    cases h
    obtain ⟨first, r, hfirst, ⟨hderives, hnesting⟩, rfl⟩ := hreader hread
    exact ⟨_, _, .token (hfirst.append (.nil _)), .cons ⟨.ofOperand hderives, hnesting⟩ .nil, rfl⟩
  | case5 s hother =>
    cases h
    exact ⟨[], [], .nil s, .nil, rfl⟩

theorem layered_nested (grid : Grid) (n : Nat) : Layered fun p => Nested grid n (.chain p) where
  ofTighter h := ⟨.ofTighter h.derives, h.nesting_le⟩
  binary hleft hright := ⟨.binary hleft.derives hright.derives, by
    rw [nesting, Nat.max_le]
    exact ⟨hleft.nesting_le, hright.nesting_le⟩⟩

theorem sound_chain {reader : Reader} (hreader : Sound grid optimize n .operand reader) :
    Sound grid optimize n (.chain 1) (chain reader) := by
  intro s e last h
  obtain ⟨⟨first, behind⟩, hread, h⟩ := exists_of_bind h
  obtain ⟨⟨others, last'⟩, hothers, h⟩ := exists_of_bind h
  cases h
  obtain ⟨head, r, hhead, hnested, rfl⟩ := hreader hread
  obtain ⟨tail, others', htail, hrest, rfl⟩ := exists_of_operations hreader hothers
  refine ⟨_, _, hhead.append htail, ?_, assemble_map (fun _ _ _ => rfl) r others'⟩
  exact (layered_nested grid n).assemble ⟨.ofOperand hnested.derives, hnested.nesting_le⟩ hrest

theorem exists_of_elements {reader : Reader} (hadvances : Advances reader)
    (hreader : Sound grid optimize n (.chain 1) reader) {s last : TokenStream} {es : List Expr}
    (h : elements reader s = .ok (es, last)) :
    ∃ items rs, s.Takes items last ∧ Derives grid .elements items (.sequence rs) ∧
      itemsNesting rs ≤ n ∧ es = rs.map (within (finished optimize)) := by
  fun_induction elements reader s generalizing es last with
  | case1 => cases h
  | case2 => cases h
  | case3 s e span rest hread hlt others last' hrec ih =>
    cases h
    obtain ⟨first, r, hfirst, ⟨hderives, hnesting⟩, rfl⟩ := hreader hread
    obtain ⟨second, rs, hsecond, hothers, hrest, rfl⟩ := ih hrec
    refine ⟨_, r :: rs, hfirst.append (.token hsecond), .elements hderives hothers, ?_, rfl⟩
    rw [itemsNesting, Nat.max_le]
    exact ⟨hnesting, hrest⟩
  | case4 s e span rest hread hlt =>
    exact absurd (Nat.lt_of_succ_lt (hadvances hread)) hlt
  | case5 s e behind _ hread =>
    cases h
    obtain ⟨items, r, hitems, ⟨hderives, hnesting⟩, rfl⟩ := hreader hread
    refine ⟨items, [r], hitems, .element hderives, ?_, rfl⟩
    rw [itemsNesting, Nat.max_le]
    exact ⟨hnesting, Nat.zero_le _⟩

/-- What a text is read as by a sound reader, the grammar reads. -/
theorem exists_of_whole {reader : Reader} (hreader : Sound grid optimize n .operand reader)
    {text : List Char} {e : Expr} (h : whole reader (.ofText text) = .ok e) :
    ∃ items r, Spelled text items ∧ Nested grid n (.chain 1) items r ∧
      e = r.within (finished optimize) := by
  obtain ⟨⟨e', last⟩, hread, h⟩ := exists_of_bind h
  obtain ⟨items, r, htakes, hnested, rfl⟩ := sound_chain hreader hread
  dsimp only at h
  split at h
  · cases h
    exact ⟨items, r, TokenStream.spelled_of_takes htakes, hnested, rfl⟩
  · cases h

/-- A tree of pieces is the **full split** of argument text. -/
structure Arguments (grid : Grid) (n : Nat) (arguments : List Char) (pieces : ArgTree Piece) :
    Prop where
  /-- The texts of the pieces are those of the full split. -/
  map_text : pieces.map Piece.text = ArgTree.fullSplit arguments
  /-- Every piece spells its items. -/
  spelled : ∀ piece ∈ pieces.expressions, Spelled piece.text piece.items
  /-- The items of every piece are a formula. -/
  nested : ∀ piece ∈ pieces.expressions, Nested grid n (.chain 1) piece.items piece.value

/-- What a piece of argument text is made. -/
theorem exists_of_leaf {reader : Reader} (hreader : Sound grid optimize n .operand reader)
    {text : List Char} {e : Expr}
    (h : (do let e ← whole reader (.ofText text); pure (if optimize then e.fold.1 else e)) =
      (.ok e : Except Error Expr)) :
    ∃ items r, Spelled text items ∧ Nested grid n (.chain 1) items r ∧ e = r.settled optimize := by
  obtain ⟨e', hwhole, h⟩ := exists_of_bind h
  cases h
  obtain ⟨items, r, hspelled, hnested, rfl⟩ := exists_of_whole hreader hwhole
  exact ⟨items, r, hspelled, hnested, rfl⟩

theorem exists_of_arguments {reader : Reader} (hreader : Sound grid optimize n .operand reader)
    {opening : Nat} {text : List Char} {tree : ArgTree Expr}
    (h : arguments optimize (some reader) opening text = .ok tree) :
    ∃ pieces, Arguments grid n text pieces ∧
      tree = argumentsWithin (finished optimize) (pieces.map Piece.value) := by
  unfold arguments at h
  dsimp only at h
  generalize hleaf : (fun text => (do
    let e ← whole reader (.ofText text)
    pure (if optimize then e.fold.1 else e) : Except Error Expr)) = leaf at h
  have hbuilt : ArgTree.ofText leaf text = .ok tree := by
    cases hbuilt : ArgTree.ofText leaf text with
    | error => rw [hbuilt] at h; cases h
    | ok tree' => rw [hbuilt] at h; cases h; rfl
  have hpieces : ∀ piece ∈ (ArgTree.outline text).expressions, ∃ read : List Item × Expr,
      Spelled piece.text read.1 ∧ Nested grid n (.chain 1) read.1 read.2 ∧
        leaf piece.text = .ok (read.2.settled optimize) := by
    intro piece hpiece
    rw [ArgTree.ofText_eq_traverse] at hbuilt
    obtain ⟨e, he⟩ := ArgTree.exists_of_traverse_eq_ok hbuilt hpiece
    cases hread : leaf piece.text with
    | error => rw [ArgTree.compilePiece, hread] at he; cases he
    | ok e' =>
      subst hleaf
      obtain ⟨items, r, hspelled, hnested, rfl⟩ := exists_of_leaf hreader hread
      exact ⟨(items, r), hspelled, hnested, rfl⟩
  have hnonempty : Nonempty (List Item × Expr) := ⟨[], .currentRow⟩
  choose! read hspelled hnested hread using hpieces
  refine ⟨(ArgTree.outline text).map fun piece => ⟨piece.text, (read piece).1, (read piece).2⟩,
    ⟨?_, ?_, ?_⟩, ?_⟩
  · rw [ArgTree.map_map, ArgTree.map_text_outline]
  · rw [ArgTree.expressions_map, List.forall_mem_map]
    exact hspelled
  · rw [ArgTree.expressions_map, List.forall_mem_map]
    exact hnested
  · have htree := (ArgTree.alongOutline_ofText leaf text).tree _ hread
    rw [hbuilt, Except.ok.injEq] at htree
    rw [htree, argumentsWithin_eq_map, ArgTree.map_map, ArgTree.map_map]
    rfl

variable {deeper : Option Reader}
  (hdeeper : ∀ reader, deeper = some reader →
    ∃ m, n = m + 1 ∧ Sound grid optimize m .operand reader)
include hdeeper

theorem exists_of_deeper_arguments {opening : Nat} {text : List Char} {tree : ArgTree Expr}
    (h : arguments optimize deeper opening text = .ok tree) :
    ∃ m pieces, n = m + 1 ∧ Arguments grid m text pieces ∧
      tree = argumentsWithin (finished optimize) (pieces.map Piece.value) := by
  cases deeper with
  | none => cases h
  | some reader =>
    obtain ⟨m, rfl, hreader⟩ := hdeeper reader rfl
    obtain ⟨pieces, hpieces, htree⟩ := exists_of_arguments hreader h
    exact ⟨m, pieces, rfl, hpieces, htree⟩

omit hdeeper in
theorem Arguments.nesting_le {arguments : List Char} {pieces : ArgTree Piece}
    (h : Arguments grid n arguments pieces) :
    argumentsNesting (pieces.map Piece.value) ≤ n := by
  rw [argumentsNesting_le_iff, ArgTree.expressions_map]
  intro e he
  obtain ⟨piece, hpiece, rfl⟩ := List.mem_map.1 he
  exact (h.nested piece hpiece).nesting_le

/-- The members that follow something are taken with it. -/
theorem exists_of_members {start s last : TokenStream} {items : List Item} {r e : Expr}
    (htaken : start.Takes items s) (hr : Nested grid n .target items r)
    (h : members optimize deeper (r.within (finished optimize)) s = .ok (e, last)) :
    ∃ items' r', start.Takes items' last ∧ Nested grid n .target items' r' ∧
      e = r'.within (finished optimize) := by
  generalize hwithin : r.within (finished optimize) = target at h
  fun_induction members optimize deeper target s generalizing items r with
  | case1 target span m span' rest ih =>
    subst hwithin
    refine ih (htaken.append (.token (.token (.nil _)))) ⟨.member hr.derives, ?_⟩ rfl h
    rw [nesting]
    exact hr.nesting_le
  | case2 target span m span' opening text rest ih =>
    subst hwithin
    obtain ⟨inside, hinside, h⟩ := exists_of_bind h
    obtain ⟨k, pieces, rfl, hpieces, rfl⟩ := exists_of_deeper_arguments hdeeper hinside
    have hderives := Derives.memberCall (n := m) hr.derives hpieces.map_text hpieces.spelled
      fun piece hpiece => (hpieces.nested piece hpiece).derives
    refine ih _ (htaken.append (.token (.call (.nil _)))) ⟨hderives, ?_⟩ rfl h
    rw [nesting, Nat.max_le]
    exact ⟨hr.nesting_le, Nat.succ_le_succ hpieces.nesting_le⟩
  | case3 => cases h
  | case4 =>
    obtain ⟨_, -, h⟩ := exists_of_bind h
    cases h
  | case5 => cases h
  | case6 =>
    cases h
    exact ⟨items, r, htaken, hr, hwithin.symm⟩

/-- Something without members, with the members that follow it, is an operand. -/
theorem exists_of_atom {start s last : TokenStream} {items : List Item} {r e : Expr}
    (htaken : start.Takes items s) (hr : Nested grid n .atom items r)
    (h : members optimize deeper (r.within (finished optimize)) s = .ok (e, last)) :
    ∃ items' r', start.Takes items' last ∧ Nested grid n .operand items' r' ∧
      e = r'.within (finished optimize) := by
  obtain ⟨items', r', htakes, ⟨hderives, hnesting⟩, he⟩ :=
    exists_of_members hdeeper htaken ⟨.ofAtom hr.derives, hr.nesting_le⟩ h
  exact ⟨items', r', htakes, ⟨.ofTarget hderives, hnesting⟩, he⟩

theorem exists_of_unaryOperand {op : UnaryOp} {span : Span} {s last : TokenStream} {e : Expr}
    (h : unaryOperand deeper op span s = .ok (e, last)) :
    ∃ items r, s.Takes items last ∧ Nested grid n .operand (.token op.token :: items) r ∧
      e = r.within (finished optimize) := by
  obtain ⟨reader, hnested, h⟩ := exists_of_bind h
  obtain ⟨m, rfl, hreader⟩ := hdeeper reader (of_nested hnested)
  obtain ⟨⟨e', last'⟩, hread, h⟩ := exists_of_bind h
  cases h
  obtain ⟨items, r, htakes, ⟨hderives, hnesting⟩, rfl⟩ := hreader hread
  refine ⟨items, .unary op r, htakes, ⟨.unary hderives, ?_⟩, rfl⟩
  rw [nesting]
  exact Nat.succ_le_succ hnesting

theorem exists_of_parenthesized {span : Span} {s last : TokenStream} {e : Expr}
    (h : parenthesized deeper span s = .ok (e, last)) :
    ∃ items r, s.Takes items last ∧ Nested grid n .atom (.token .roundOpen :: items) r ∧
      e = r.within (finished optimize) := by
  obtain ⟨reader, hnested, h⟩ := exists_of_bind h
  obtain ⟨m, rfl, hreader⟩ := hdeeper reader (of_nested hnested)
  obtain ⟨⟨e', behind⟩, hread, h⟩ := exists_of_bind h
  obtain ⟨last', hclose, h⟩ := exists_of_bind h
  cases h
  obtain ⟨items, r, htakes, ⟨hderives, hnesting⟩, rfl⟩ := sound_chain hreader hread
  obtain ⟨span, rfl⟩ := exists_of_behindRoundClose hclose
  refine ⟨_, .paren r, htakes.append (.token (.nil _)), ⟨.paren hderives, ?_⟩, rfl⟩
  rw [nesting]
  exact Nat.succ_le_succ hnesting

theorem exists_of_bracketed (hadvances : DeeperAdvances deeper) {span : Span}
    {s last : TokenStream} {e : Expr} (h : bracketed deeper span s = .ok (e, last)) :
    ∃ items r, s.Takes items last ∧ Nested grid n .atom (.token .squareOpen :: items) r ∧
      e = r.within (finished optimize) := by
  obtain ⟨reader, hnested, h⟩ := exists_of_bind h
  obtain ⟨m, rfl, hreader⟩ := hdeeper reader (of_nested hnested)
  dsimp only at h
  split at h
  · cases h
    refine ⟨_, .sequence [], .token (.nil _), ⟨.empty, ?_⟩, rfl⟩
    exact Nat.succ_le_succ (Nat.zero_le m)
  · obtain ⟨⟨es, behind⟩, hread, h⟩ := exists_of_bind h
    obtain ⟨last', hclose, h⟩ := exists_of_bind h
    cases h
    obtain ⟨items, rs, htakes, hderives, hnesting, rfl⟩ :=
      exists_of_elements (advances_chain (hadvances reader (of_nested hnested)))
        (sound_chain hreader) hread
    obtain ⟨span, rfl⟩ := exists_of_behindSquareClose hclose
    refine ⟨_, .sequence rs, htakes.append (.token (.nil _)), ⟨.sequence hderives, ?_⟩, ?_⟩
    · exact Nat.succ_le_succ hnesting
    · rw [within, itemsWithin_eq_map]

theorem sound_operand (hadvances : DeeperAdvances deeper) :
    Sound grid optimize n .operand (operand grid optimize deeper) := by
  intro s e last h
  have hatom : ∀ {t span rest r}, Derives grid .atom [.token t] r → r.nesting = 0 →
      members optimize deeper (r.within (finished optimize)) rest = .ok (e, last) →
        ∃ items r, TokenStream.Takes (.token t span rest) items last ∧
          Nested grid n .operand items r ∧ e = r.within (finished optimize) :=
    fun hderives hnesting h =>
      exists_of_atom hdeeper (.token (.nil _)) ⟨hderives, hnesting ▸ Nat.zero_le n⟩ h
  unfold operand at h
  split at h
  · obtain ⟨items, r, htakes, hnested, he⟩ := exists_of_unaryOperand hdeeper h
    exact ⟨_, r, .token htakes, hnested, he⟩
  · obtain ⟨items, r, htakes, hnested, he⟩ := exists_of_unaryOperand hdeeper h
    exact ⟨_, r, .token htakes, hnested, he⟩
  · exact hatom .number rfl h
  · exact hatom .text rfl h
  · exact hatom .field rfl h
  · exact hatom .hash rfl h
  · obtain ⟨_, -, h⟩ := exists_of_bind h
    obtain ⟨e', hname, h⟩ := exists_of_bind h
    cases ofName_eq_ok_iff.1 hname with
    | constant hn => exact hatom (.name (.constant hn)) rfl h
    | cell hn hcell => exact hatom (.name (.cell hn hcell)) rfl h
    | name hn hcell hdollar => exact hatom (.name (.name hn hcell hdollar)) rfl h
  · obtain ⟨⟨e', rest'⟩, hinner, h⟩ := exists_of_bind h
    obtain ⟨items, r, htakes, hnested, rfl⟩ := exists_of_parenthesized hdeeper hinner
    exact exists_of_atom hdeeper (.token htakes) hnested h
  · obtain ⟨⟨e', rest'⟩, hinner, h⟩ := exists_of_bind h
    obtain ⟨items, r, htakes, hnested, rfl⟩ := exists_of_bracketed hdeeper hadvances hinner
    exact exists_of_atom hdeeper (.token htakes) hnested h
  · next name span opening text rest =>
    obtain ⟨inside, hinside, h⟩ := exists_of_bind h
    obtain ⟨m, pieces, rfl, hpieces, rfl⟩ := exists_of_deeper_arguments hdeeper hinside
    have hderives := Derives.call (n := name) hpieces.map_text hpieces.spelled
      fun piece hpiece => (hpieces.nested piece hpiece).derives
    refine exists_of_atom hdeeper (.call (.nil _)) ⟨hderives, ?_⟩ h
    exact Nat.succ_le_succ hpieces.nesting_le
  · cases h
  · cases h

end Soundness

/-- Reading one operand is **sound**, at any level of nesting. -/
theorem sound_operandAt (grid : Grid) (optimize : Bool) (n : Nat) :
    Sound grid optimize n .operand (operandAt grid optimize n) := by
  induction n with
  | zero => exact sound_operand (fun _ h => by cases h) fun _ h => by cases h
  | succ n ih =>
    refine sound_operand (fun reader h => ?_) fun reader h => ?_
    · cases h
      exact ⟨n, rfl, ih⟩
    · cases h
      exact advances_operandAt grid optimize n

/-! ### Completeness -/

/-- A stream **ends** an expression: it is at its end, or at a comma or a closing bracket. -/
inductive Ends : TokenStream → Prop
  /-- The end of the text. -/
  | finish (position : Nat) : Ends (.finish position)
  /-- A comma or a closing bracket. -/
  | token {t : Token} {span : Span} {rest : TokenStream} :
      t = .roundClose ∨ t = .squareClose ∨ t = .comma → Ends (.token t span rest)

/-- A stream **follows** an operand: it ends the expression or goes on with an operator. -/
inductive Follows : TokenStream → Prop
  /-- The end of the expression. -/
  | ends {s : TokenStream} : Ends s → Follows s
  /-- An operator. -/
  | operator {op : BinaryOp} {span : Span} {rest : TokenStream} :
      Follows (.token (.operator op) span rest)

theorem Follows.intact {s : TokenStream} (h : Follows s) : s.intact = .ok () := by
  obtain ⟨_ | _⟩ | _ := h <;> rfl

/-- No member stands where an operand is followed. -/
theorem Follows.members {s : TokenStream} (h : Follows s) (optimize : Bool)
    (deeper : Option Reader) (e : Expr) : members optimize deeper e s = .ok (e, s) := by
  obtain ⟨_ | ⟨rfl | rfl | rfl⟩⟩ | _ := h <;> rw [Expr.members] <;> simp

/-- No operator stands where an expression ends. -/
theorem Ends.operations {s : TokenStream} (h : Ends s) (reader : Reader) :
    operations reader s = .ok ([], s) := by
  obtain _ | ⟨rfl | rfl | rfl⟩ := h <;> rw [Expr.operations] <;> simp

section Completeness

variable (grid : Grid) (optimize : Bool) (n : Nat)

/-- Items that are **taken** as one operand wherever an operand can stand. -/
def TakenAsOperand (items : List Item) (e : Expr) : Prop :=
  ∀ {s last}, s.Takes items last → Follows last →
    operandAt grid optimize n s = .ok (e.within (finished optimize), last)

/-- A phrase is **readable** when the readers take it as what it is, wherever it can stand. -/
def Readable : Category → List Item → Expr → Prop
  | .chain p, items, e => ∃ head tail first others, items = head ++ tail ∧
      TakenAsOperand grid optimize n head first ∧
      Tail (TakenAsOperand grid optimize n) tail others ∧ Joins p first others e
  | .operand, items, e => TakenAsOperand grid optimize n items e
  | .target, items, e | .atom, items, e => ∀ {s last}, s.Takes items last → last.intact = .ok () →
      operandAt grid optimize n s =
        members optimize (deeperAt grid optimize n) (e.within (finished optimize)) last
  | .elements, items, e => ∀ {es}, e = .sequence es → ∀ {s span rest},
      s.Takes items (.token .squareClose span rest) →
        elements (chain (operandAt grid optimize n)) s =
          .ok (es.map (within (finished optimize)), .token .squareClose span rest)

variable {grid optimize n}

theorem Tail.follows {D : List Item → Expr → Prop} {items : List Item} {others : Operations}
    (h : Tail D items others) {s last : TokenStream} (htakes : s.Takes items last)
    (hlast : Ends last) : Follows s := by
  cases h with
  | nil =>
    cases htakes
    exact .ends hlast
  | cons =>
    cases htakes
    exact .operator

theorem operations_of_tail {items : List Item} {others : Operations}
    (h : Tail (TakenAsOperand grid optimize n) items others) {s last : TokenStream}
    (htakes : s.Takes items last) (hlast : Ends last) :
    operations (operandAt grid optimize n) s =
      .ok (others.map (Prod.map id (within (finished optimize))), last) := by
  induction h generalizing s with
  | nil =>
    cases htakes
    exact hlast.operations _
  | cons he htail ih =>
    cases htakes with
    | token htakes =>
      obtain ⟨middle, hfirst, hsecond⟩ := htakes.split
      rw [operations_cons (advances_operandAt grid optimize n),
        he hfirst (htail.follows hsecond hlast)]
      dsimp only [bind, Except.bind]
      rw [ih hsecond]
      rfl

/-- A readable formula is taken as what it is. -/
theorem chain_of_readable {items : List Item} {e : Expr}
    (h : Readable grid optimize n (.chain 1) items e) {s last : TokenStream}
    (htakes : s.Takes items last) (hlast : Ends last) :
    chain (operandAt grid optimize n) s = .ok (e.within (finished optimize), last) := by
  obtain ⟨head, tail, first, others, rfl, hfirst, hothers, hjoins⟩ := h
  obtain ⟨middle, hhead, htail⟩ := htakes.split
  rw [chain, hfirst hhead (hothers.follows htail hlast)]
  dsimp only [bind, Except.bind]
  rw [operations_of_tail hothers htail hlast]
  dsimp only [pure, Except.pure]
  rw [assemble_map fun _ _ _ => rfl, hjoins.assemble_eq]

theorem readAt_of_readable {text : List Char} {items : List Item} {e : Expr}
    (hspelled : Spelled text items) (h : Readable grid optimize n (.chain 1) items e) :
    readAt grid optimize n text = .ok (e.settled optimize) := by
  obtain ⟨last, htakes⟩ := (TokenStream.spelled_iff_takes 0).1 hspelled
  have hwhole : whole (operandAt grid optimize n) (.ofText text) =
      .ok (e.within (finished optimize)) := by
    rw [whole, TokenStream.ofText, chain_of_readable h htakes (.finish last)]
    rfl
  rw [readAt, hwhole]
  rfl

/-- Argument text whose pieces are read is made the tree of what they are read as. -/
theorem arguments_of_readAt {text : List Char} {pieces : ArgTree Piece}
    (htext : pieces.map Piece.text = ArgTree.fullSplit text)
    (hread : ∀ piece ∈ pieces.expressions,
      readAt grid optimize n piece.text = .ok (piece.value.settled optimize)) (opening : Nat) :
    arguments optimize (some (operandAt grid optimize n)) opening text =
      .ok (argumentsWithin (finished optimize) (pieces.map Piece.value)) := by
  obtain ⟨pairs, hleaves, rfl, htexts⟩ :=
    ArgTree.exists_zip ((ArgTree.map_text_outline text).trans htext.symm)
  have htree : ArgTree.ofText (readAt grid optimize n) text =
      .ok (pairs.map fun pair => pair.2.value.settled optimize) := by
    rw [ArgTree.ofText_eq_traverse, ← hleaves, ArgTree.traverse_map]
    refine ArgTree.traverse_eq_ok_map fun pair hpair => (ArgTree.compilePiece_eq_ok_iff _).2 ?_
    rw [htexts pair hpair]
    exact hread pair.2 (ArgTree.mem_expressions_map Prod.snd hpair)
  rw [arguments_operandAt, htree, argumentsWithin_eq_map, ArgTree.map_map, ArgTree.map_map]
  rfl

/-- The pieces of argument text are read one level deeper than the call. -/
theorem arguments_of_readable {text : List Char} {pieces : ArgTree Piece}
    (htext : pieces.map Piece.text = ArgTree.fullSplit text)
    (hspelled : ∀ piece ∈ pieces.expressions, Spelled piece.text piece.items)
    (hnesting : argumentsNesting (pieces.map Piece.value) ≤ n)
    (hreadable : ∀ piece ∈ pieces.expressions, ∀ {n}, piece.value.nesting ≤ n →
      Readable grid optimize n (.chain 1) piece.items piece.value) {opening : Nat} :
    arguments optimize (some (operandAt grid optimize n)) opening text =
      .ok (argumentsWithin (finished optimize) (pieces.map Piece.value)) := by
  rw [argumentsNesting_le_iff, ArgTree.expressions_map] at hnesting
  refine arguments_of_readAt htext (fun piece hpiece => ?_) opening
  exact readAt_of_readable (hspelled piece hpiece)
    (hreadable piece hpiece (hnesting _ (List.mem_map_of_mem hpiece)))

/-- A sequence whose expressions are taken does not begin with the bracket that closes it. -/
theorem bracketed_of_elements {s last : TokenStream} {es : List Expr} {span closing : Span}
    (h : elements (chain (operandAt grid optimize n)) s =
      .ok (es, .token .squareClose closing last)) :
    bracketed (deeperAt grid optimize (n + 1)) span s = .ok (.sequence es, last) := by
  unfold bracketed
  dsimp only [deeperAt, nested, bind, Except.bind]
  split
  · next span rest =>
    obtain ⟨error, herror⟩ : ∃ error,
        chain (operandAt grid optimize n) (.token .squareClose span rest) = .error error := by
      rw [operandAt_eq]
      exact ⟨_, rfl⟩
    rw [elements, herror] at h
    cases h
  · rw [h]
    rfl

/-- How many levels deeper than a phrase its expressions stand. -/
def depth : Category → Nat
  | .elements => 1
  | _ => 0

theorem within_of_standsFor {m : String} {e : Expr} (h : StandsFor grid m e)
    (finish : Expr → Expr) : e.within finish = e := by
  cases h <;> rfl

section Constructs

variable {items first second : List Item} {e left right : Expr} {es : List Expr} {m : String}
  {text : List Char} {pieces : ArgTree Piece}

theorem readable_name (hstands : StandsFor grid m e) :
    Readable grid optimize n .atom [.token (.name m)] e := by
  intro s last htakes hintact
  rcases htakes with _ | htakes
  cases htakes
  rw [operandAt_eq, operand, hintact, ofName_eq_ok_iff.2 hstands, within_of_standsFor hstands]
  rfl

theorem readable_paren (h : Readable grid optimize n (.chain 1) items e) :
    Readable grid optimize (n + 1) .atom (.token .roundOpen :: (items ++ [.token .roundClose]))
      (.paren e) := by
  intro s last htakes _
  rcases htakes with _ | htakes
  obtain ⟨middle, hinner, hclose⟩ := htakes.split
  rcases hclose with _ | hclose
  cases hclose
  have hread := chain_of_readable h hinner (.token (.inl rfl))
  rw [operandAt_eq, operand, parenthesized]
  dsimp only [deeperAt, nested, bind, Except.bind]
  rw [hread]
  rfl

theorem readable_empty : Readable grid optimize (n + 1) .atom
    [.token .squareOpen, .token .squareClose] (.sequence []) := by
  intro s last htakes _
  rcases htakes with _ | htakes
  rcases htakes with _ | htakes
  cases htakes
  rw [operandAt_eq]
  rfl

theorem readable_sequence (h : Readable grid optimize n .elements items (.sequence es)) :
    Readable grid optimize (n + 1) .atom (.token .squareOpen :: (items ++ [.token .squareClose]))
      (.sequence es) := by
  intro s last htakes _
  rcases htakes with _ | htakes
  obtain ⟨middle, hinner, hclose⟩ := htakes.split
  rcases hclose with _ | hclose
  cases hclose
  have hread := h rfl hinner
  rw [operandAt_eq, operand, bracketed_of_elements hread, within, itemsWithin_eq_map]
  rfl

theorem readable_call (harguments : ∀ opening,
    arguments optimize (some (operandAt grid optimize n)) opening text =
      .ok (argumentsWithin (finished optimize) (pieces.map Piece.value))) :
    Readable grid optimize (n + 1) .atom [.call m text] (.call m (pieces.map Piece.value)) := by
  intro s last htakes _
  rcases htakes with _ | _ | htakes
  cases htakes
  rw [operandAt_eq, operand, deeperAt, harguments]
  rfl

theorem readable_member (h : Readable grid optimize n .target items e) :
    Readable grid optimize n .target (items ++ [.token .dot, .token (.name m)]) (.member e m) := by
  intro s last htakes _
  obtain ⟨middle, htarget, hmember⟩ := htakes.split
  rcases hmember with _ | hmember
  rcases hmember with _ | hmember
  cases hmember
  rw [h htarget rfl]
  rfl

theorem readable_memberCall (h : Readable grid optimize (n + 1) .target items e)
    (harguments : ∀ opening, arguments optimize (some (operandAt grid optimize n)) opening text =
      .ok (argumentsWithin (finished optimize) (pieces.map Piece.value))) :
    Readable grid optimize (n + 1) .target (items ++ [.token .dot, .call m text])
      (.memberCall e m (pieces.map Piece.value)) := by
  intro s last htakes _
  obtain ⟨middle, htarget, hmember⟩ := htakes.split
  rcases hmember with _ | hmember
  rcases hmember with _ | _ | hmember
  cases hmember
  rw [h htarget rfl, members, deeperAt, harguments]
  rfl

/-- What has no unary operator before it is an operand, since no member stands behind an operand. -/
theorem readable_ofTarget (h : Readable grid optimize n .target items e) :
    Readable grid optimize n .operand items e := by
  intro s last htakes hfollows
  rw [h htakes hfollows.intact, hfollows.members]

theorem readable_unary (op : UnaryOp) (h : Readable grid optimize n .operand items e) :
    Readable grid optimize (n + 1) .operand (.token op.token :: items) (.unary op e) := by
  intro s last htakes hfollows
  rcases htakes with _ | htakes
  have hread := h htakes hfollows
  rw [operandAt_eq]
  cases op <;>
  · rw [UnaryOp.token, operand, unaryOperand]
    dsimp only [deeperAt, nested, bind, Except.bind]
    rw [hread]
    rfl

theorem readable_ofTighter {p : Nat} (h : Readable grid optimize n (.chain (p + 1)) items e) :
    Readable grid optimize n (.chain p) items e := by
  obtain ⟨head, tail, first, others, rfl, hfirst, hothers, hjoins⟩ := h
  exact ⟨head, tail, first, others, rfl, hfirst, hothers, hjoins.ofTighter⟩

theorem readable_binary {op : BinaryOp}
    (hleft : Readable grid optimize n (.chain op.precedence) first left)
    (hright : Readable grid optimize n (.chain (op.precedence + 1)) second right) :
    Readable grid optimize n (.chain op.precedence) (first ++ .token (.operator op) :: second)
      (.binary op left right) := by
  obtain ⟨head, tail, operand, others, rfl, hoperand, hothers, hjoins⟩ := hleft
  obtain ⟨head', tail', next, more, rfl, hnext, hmore, hjoins'⟩ := hright
  exact ⟨head, _, operand, _, List.append_assoc .., hoperand, hothers.append (.cons hnext hmore),
    hjoins.binary hjoins'⟩

theorem readable_element (h : Readable grid optimize n (.chain 1) items e) :
    Readable grid optimize n .elements items (.sequence [e]) := by
  intro es hes s span rest htakes
  cases hes
  have hread := chain_of_readable h htakes (.token (.inr (.inl rfl)))
  rw [elements, hread]
  rfl

theorem readable_elements (hfirst : Readable grid optimize n (.chain 1) first e)
    (hsecond : Readable grid optimize n .elements second (.sequence es)) :
    Readable grid optimize n .elements (first ++ .token .comma :: second) (.sequence (e :: es)) := by
  intro _ hes s span rest htakes
  cases hes
  obtain ⟨middle, hhead, htail⟩ := htakes.split
  rcases htail with _ | htail
  have hread := chain_of_readable hfirst hhead (.token (.inr (.inr rfl)))
  rw [elements_cons (advances_chain (advances_operandAt grid optimize n)) hread, hsecond rfl htail]
  rfl

end Constructs

/-- What is **derived** is readable, as long as it does not nest too deeply. -/
theorem readable_of_derives {category : Category} {items : List Item} {e : Expr}
    (h : Derives grid category items e) {n : Nat} (hn : e.nesting ≤ n + depth category) :
    Readable grid optimize n category items e := by
  induction h generalizing n with
  | number | text | field | hash =>
    intro s last htakes _
    rcases htakes with _ | htakes
    cases htakes
    rw [operandAt_eq]
    rfl
  | name hstands => exact readable_name hstands
  | paren _ ih =>
    obtain ⟨m, rfl⟩ := Nat.exists_eq_succ_of_ne_zero (Nat.ne_zero_of_lt hn)
    exact readable_paren (ih (Nat.le_of_succ_le_succ hn))
  | empty =>
    obtain ⟨m, rfl⟩ := Nat.exists_eq_succ_of_ne_zero (Nat.ne_zero_of_lt hn)
    exact readable_empty
  | sequence _ ih =>
    obtain ⟨m, rfl⟩ := Nat.exists_eq_succ_of_ne_zero (Nat.ne_zero_of_lt hn)
    exact readable_sequence (ih hn)
  | call htext hspelled _ ih =>
    obtain ⟨m, rfl⟩ := Nat.exists_eq_succ_of_ne_zero (Nat.ne_zero_of_lt hn)
    exact readable_call fun _ =>
      arguments_of_readable htext hspelled (Nat.le_of_succ_le_succ hn) ih
  | ofAtom _ ih => exact fun htakes hintact => ih hn htakes hintact
  | member _ ih => exact readable_member (ih hn)
  | memberCall _ htext hspelled _ ih ihpieces =>
    rw [nesting, Nat.max_le] at hn
    obtain ⟨m, rfl⟩ := Nat.exists_eq_succ_of_ne_zero (Nat.ne_zero_of_lt hn.2)
    exact readable_memberCall (ih hn.1) fun _ =>
      arguments_of_readable htext hspelled (Nat.le_of_succ_le_succ hn.2) ihpieces
  | ofTarget _ ih => exact readable_ofTarget (ih hn)
  | @unary op _ _ _ ih =>
    obtain ⟨m, rfl⟩ := Nat.exists_eq_succ_of_ne_zero (Nat.ne_zero_of_lt hn)
    exact readable_unary op (ih (Nat.le_of_succ_le_succ hn))
  | ofOperand _ ih => exact ⟨_, [], _, [], (List.append_nil _).symm, ih hn, .nil, .single _⟩
  | ofTighter _ ih => exact readable_ofTighter (ih hn)
  | binary _ _ ihleft ihright =>
    rw [nesting, Nat.max_le] at hn
    exact readable_binary (ihleft hn.1) (ihright hn.2)
  | element _ ih =>
    rw [nesting, depth, Nat.add_le_add_iff_right, itemsNesting, Nat.max_le] at hn
    exact readable_element (ih hn.1)
  | elements _ _ ihfirst ihothers =>
    rw [nesting, depth, Nat.add_le_add_iff_right, itemsNesting, Nat.max_le] at hn
    exact readable_elements (ihfirst hn.1) (ihothers (Nat.succ_le_succ hn.2))

end Completeness

/-! ### Agreement -/

/-- **A text is read exactly when the grammar reads it**, without nesting too deeply, and then it
is read as what the expression settles on. -/
theorem readAt_eq_ok_iff {grid : Grid} {optimize : Bool} {n : Nat} {text : List Char} {e : Expr} :
    readAt grid optimize n text = .ok e ↔
      ∃ r, Reads grid text r ∧ r.nesting ≤ n ∧ e = r.settled optimize := by
  constructor
  · intro h
    obtain ⟨items, r, hspelled, hnested, he⟩ := exists_of_leaf (sound_operandAt grid optimize n) h
    exact ⟨r, ⟨items, hspelled, hnested.derives⟩, hnested.nesting_le, he⟩
  · rintro ⟨r, ⟨items, hspelled, hderives⟩, hnesting, rfl⟩
    exact readAt_of_readable hspelled (readable_of_derives hderives hnesting)

/-- The grammar is **unambiguous**: a text reads as one expression at most. -/
theorem reads_unique {grid : Grid} {text : List Char} {r r' : Expr} (h : Reads grid text r)
    (h' : Reads grid text r') : r = r' := by
  have hread := (@readAt_eq_ok_iff grid false _ _ _).2
    ⟨r, h, Nat.le_max_left r.nesting r'.nesting, rfl⟩
  rw [readAt_eq_ok_iff.2 ⟨r', h', Nat.le_max_right r.nesting r'.nesting, rfl⟩, settled_false,
    settled_false, Except.ok.injEq] at hread
  exact hread.symm

/-- Compiling without templates is reading by the grammar. -/
theorem compile_eq_ok_iff {env : Env} {options : Options} (h : options.expandTemplates = false)
    {text : List Char} {e : Expr} :
    compile env options text = .ok e ↔
      ∃ r, Reads env.grid text r ∧ r.nesting ≤ nestingLimit ∧ e = r.settled options.optimize := by
  rw [← readAt_eq_ok_iff, compile, compileAt, h]
  rfl

end Expr

end GridFormula
