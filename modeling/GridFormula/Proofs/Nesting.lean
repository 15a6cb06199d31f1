import GridFormula.Proofs.Openers

/-!
# Formulas that nest too deeply

With a number of levels left, a formula is read as its expression or fails at its first opener that
stands deeper, and nothing else can happen. The number is counted down in two ways on its way to
such an opener, by readers that go along one stream and from the arguments of a call to a stream of
their own, and the error is moved back through every leaf and every call.

The invariant is that of an outcome that is limited: it is what it would be, except for an error at
the first of some openers that is too deep. Reading one phrase behind the other limits an outcome by
the openers of both, and reading in a construct limits it by one level less and by the opener of the
construct. So the cases of the grammar are put together from a law for each, and what a formula does
at any limit is one induction over the grammar.

## Main definitions

* `limited`: an outcome up to the first opener that stands too deep.
* `Expr.unassembled`: the operands of a chain before its operators are joined.
* `Expr.ReadWithin`: phrases that the readers take, up to the first opener that stands too deep.

## Main results

* `limited_append`, `limited_inside`: openers behind each other, and openers in a construct.
* `Expr.readWithin_of_phrase`: a phrase is read within any number of levels.
* `Expr.readAt_of_formula`: a formula is read, or fails at its first opener that stands too deep.
-/

namespace GridFormula

open Text (byteLength allBlank)

/-! ### Limited outcomes -/

/-- The bytes of an opener in a text that starts at byte `position`. -/
def Opener.span (position : Nat) (opener : Opener) : Span :=
  ⟨position + opener.position, position + opener.position + 1⟩

/-- An outcome **limited** to `n` levels of nesting: an error at the first opener that stands
deeper, where there is one. -/
def limited {α : Type} (n position : Nat) (openers : List Opener) (outcome : Except Error α) :
    Except Error α :=
  match openers.find? fun opener => n < opener.level with
  | some opener => .error (Error.ofFault .nestingTooDeep (opener.span position))
  | none => outcome

section Limited

variable {α β : Type} {n position : Nat} {openers openers' : List Opener}
  {outcome : Except Error α}

theorem limited_append : limited n position (openers ++ openers') outcome =
    limited n position openers (limited n position openers' outcome) := by
  unfold limited
  rw [List.find?_append]
  cases openers.find? fun opener => n < opener.level <;> rfl

theorem limited_bind (f : α → Except Error β) :
    (limited n position openers outcome >>= f) = limited n position openers (outcome >>= f) := by
  unfold limited
  cases openers.find? fun opener => n < opener.level <;> rfl

theorem limited_map (f : α → β) :
    (limited n position openers outcome).map f = limited n position openers (outcome.map f) := by
  unfold limited
  cases openers.find? fun opener => n < opener.level <;> rfl

/-- Openers that are moved limit an outcome like those that they come from, with the levels that are
left moved as well. -/
theorem limited_moved {m position' : Nat} {move : Opener → Opener}
    (hlevel : ∀ opener, n < (move opener).level ↔ m < opener.level)
    (hspan : ∀ opener, (move opener).span position = opener.span position') :
    limited n position (openers.map move) outcome = limited m position' openers outcome := by
  have hsame : ((fun opener : Opener => decide (n < opener.level)) ∘ move) =
      fun opener => decide (m < opener.level) :=
    funext fun opener => decide_eq_decide.2 (hlevel opener)
  unfold limited
  rw [List.find?_map, hsame]
  cases openers.find? fun opener => m < opener.level with
  | none => rfl
  | some opener => simp only [Option.map_some, hspan]

theorem limited_shift (offset : Nat) : limited n position (openers.map (.shift offset)) outcome =
    limited n (position + offset) openers outcome :=
  limited_moved (fun _ => Iff.rfl) fun opener => by
    simp only [Opener.span, Opener.shift, Nat.add_assoc]

/-- Inside a construct one level less is left. -/
theorem limited_inside (head : List Char) :
    limited (n + 1) position (.last head :: openers.map (.inside head)) outcome =
      limited n (position + byteLength head) openers outcome := by
  rw [limited, List.find?_cons_of_neg (by simp [Opener.last])]
  refine limited_moved (fun opener => ?_) fun opener => ?_
  · simp only [Opener.inside, Nat.add_lt_add_iff_right]
  · simp only [Opener.span, Opener.inside, Nat.add_assoc]

end Limited

theorem mapError_map {α β : Type} (f : α → β) (g : Error → Error) (outcome : Except Error α) :
    (outcome.map f).mapError g = (outcome.mapError g).map f := by
  cases outcome <;> rfl

theorem mapError_bind {α β : Type} (f : α → Except Error β) (g : Error → Error)
    (outcome : Except Error α) :
    (outcome >>= f).mapError g = outcome.mapError g >>= fun a => (f a).mapError g := by
  cases outcome <;> rfl

/-! ### Streams of phrases -/

namespace TokenStream

/-- A written token is the next one of the stream. -/
theorem ofTextAt_written {t : Token} {word behind : List Char} (h : Written t word behind)
    (hname : ∀ n, t = .name n → NoCall behind) (position : Nat) :
    ∃ span, ofTextAt position (word ++ behind) =
        .token t span (ofTextAt (position + byteLength word) behind) ∧
      (t.isOpener = true → span = (Opener.last word).span position) := by
  obtain ⟨blanks, source, rfl, hblanks, hmade⟩ := h
  rw [List.append_assoc, ofTextAt_word position hblanks (Lexeme.word_of_made hmade) hname,
    Text.byteLength_append, Nat.add_assoc]
  refine ⟨_, rfl, fun ht => ?_⟩
  obtain ⟨c, hc, rfl⟩ := Lexeme.exists_sign_of_isOpener hmade ht
  simp only [Opener.span, Opener.last, Text.byteLength_append, Text.byteLength_cons,
    Text.byteLength_nil, Opener.utf8Size_of_mem_signs hc, Span.mk.injEq]
  omega

/-- A call with closed arguments is the next item of the stream. -/
theorem ofTextAt_opens {n : String} {head arguments behind : List Char}
    (h : Opens n head (arguments ++ ')' :: behind)) (hclosed : Scan.Closed arguments)
    (position : Nat) :
    ∃ span, ofTextAt position (head ++ (arguments ++ ')' :: behind)) =
      .call n span ((Opener.last head).span position).start arguments
        (ofTextAt (position + byteLength (head ++ (arguments ++ [')']))) behind) := by
  have hsplit := Scan.splitAtCloser_of_closed hclosed .round behind
  obtain ⟨name, opening, rfl, ⟨blanks, source, rfl, hblanks, hmade⟩, hopening⟩ := h
  obtain ⟨gap, rfl, hgap⟩ := hopening.exists_blanks
  have hword : Lexeme.Word source (.name n) (gap ++ '(' :: (arguments ++ ')' :: behind)) := by
    simpa using Lexeme.word_of_made hmade
  have hopen : '('.utf8Size = 1 := by decide
  have hclose : ')'.utf8Size = 1 := by decide
  obtain ⟨span, hstream⟩ := ofTextAt_call position hblanks hgap hword hsplit rfl
  refine ⟨span, ?_⟩
  simp only [List.append_assoc, List.cons_append, List.nil_append] at hstream ⊢
  simp only [hstream, Opener.span, Opener.last, Text.byteLength_append, Text.byteLength_cons,
    Text.byteLength_nil, hopen, hclose]
  rw [call.injEq]
  exact ⟨rfl, rfl, by omega, rfl, congrArg (ofTextAt · behind) (by omega)⟩

end TokenStream

namespace Expr

open TokenStream (ofTextAt)

/-! ### Chains that are not assembled -/

/-- The first operand of a chain, and the operators with their operands behind it. -/
def unassembled (operand : Reader) (s : TokenStream) :
    Except Error ((Expr × Operations) × TokenStream) := do
  let (first, s) ← operand s
  let (others, s) ← operations operand s
  pure ((first, others), s)

theorem chain_eq_unassembled (operand : Reader) (s : TokenStream) :
    chain operand s = unassembled operand s >>= fun (parts, last) =>
      pure (assemble parts.1 parts.2, last) := by
  simp only [chain, unassembled, bind_assoc, pure_bind]

theorem operations_operator {operand : Reader} (h : Advances operand) (op : BinaryOp) (span : Span)
    (rest : TokenStream) :
    operations operand (.token (.operator op) span rest) =
      unassembled operand rest >>= fun (parts, last) =>
        pure ((op, parts.1) :: parts.2, last) := by
  simp only [operations_cons h, unassembled, bind_assoc, pure_bind]

/-! ### Reading phrases -/

/-- A phrase is **read within** `n` levels, wherever it can stand, when the readers take it as what
it is or fail at its first opener that stands deeper. -/
def ReadWithin (grid : Grid) (n : Nat) :
    Category → List Char → List Char → Expr → List Opener → Prop
  | .chain p, text, behind, e, openers => ∃ first others, Joins p first others e ∧
      ∀ position, position + byteLength text ≤ maxPosition →
        Follows (ofTextAt (position + byteLength text) behind) →
          unassembled (operandAt grid false n) (ofTextAt position (text ++ behind)) =
            limited n position openers
              (operations (operandAt grid false n) (ofTextAt (position + byteLength text) behind) >>=
                fun (more, last) => pure ((first, others ++ more), last))
  | .operand, text, behind, e, openers =>
      ∀ position, position + byteLength text ≤ maxPosition →
        Follows (ofTextAt (position + byteLength text) behind) →
          operandAt grid false n (ofTextAt position (text ++ behind)) =
            limited n position openers (.ok (e, ofTextAt (position + byteLength text) behind))
  | .target, text, behind, e, openers | .atom, text, behind, e, openers =>
      ∀ position, position + byteLength text ≤ maxPosition →
        (ofTextAt (position + byteLength text) behind).intact = .ok () →
          operandAt grid false n (ofTextAt position (text ++ behind)) =
            limited n position openers (members false (deeperAt grid false n) e
              (ofTextAt (position + byteLength text) behind))
  | .elements, text, behind, e, openers => ∀ es, e = .sequence es →
      ∀ position, position + byteLength text ≤ maxPosition → ∀ span rest,
        ofTextAt (position + byteLength text) behind = .token .squareClose span rest →
          elements (chain (operandAt grid false n)) (ofTextAt position (text ++ behind)) =
            limited n position openers (.ok (es, .token .squareClose span rest))

variable {grid : Grid} {n : Nat}

theorem chain_of_readWithin {text behind : List Char} {e : Expr} {openers : List Opener}
    (h : ReadWithin grid n (.chain 1) text behind e openers) (position : Nat)
    (hposition : position + byteLength text ≤ maxPosition)
    (hends : Ends (ofTextAt (position + byteLength text) behind)) :
    chain (operandAt grid false n) (ofTextAt position (text ++ behind)) =
      limited n position openers (.ok (e, ofTextAt (position + byteLength text) behind)) := by
  obtain ⟨first, others, hjoins, hread⟩ := h
  rw [chain_eq_unassembled, hread position hposition (.ends hends), hends.operations, limited_bind]
  have hassembled : assemble first (others ++ []) = e := by
    rw [List.append_nil, hjoins.assemble_eq]
  exact congrArg _ (congrArg Except.ok (Prod.ext hassembled rfl))

/-- A text that is read as a formula on its own. -/
theorem readAt_of_readWithin {body blanks : List Char} {e : Expr} {openers : List Opener}
    (hblanks : allBlank blanks = true) (hlength : byteLength body ≤ maxPosition)
    (h : ReadWithin grid n (.chain 1) body blanks e openers) :
    readAt grid false n (body ++ blanks) = limited n 0 openers (.ok e) := by
  have hend := TokenStream.ofTextAt_of_allBlank (0 + byteLength body) hblanks
  have hchain := chain_of_readWithin h 0 (by omega) (hend ▸ .finish _)
  rw [readAt, whole, TokenStream.ofText, hchain, hend, limited_bind, limited_bind]
  rfl

/-- The error at an opener of a leaf is moved to where the leaf stands. -/
theorem shift_openerError {leaf : LeafText} {text : List Char} (hleaf : leaf.In text)
    {opener : Opener} (hopener : opener.In leaf.text) {offset : Nat}
    (hoffset : offset + byteLength text ≤ maxPosition) :
    Error.shift offset (Error.shift leaf.offset
        (Error.ofFault .nestingTooDeep (opener.span 0))) =
      Error.ofFault .nestingTooDeep (opener.span (offset + leaf.offset)) := by
  have hlt := hopener.position_lt
  have hstop := hleaf.stop_le
  simp only [LeafText.span] at hstop
  simp only [Error.shift, Error.ofFault, SyntaxError.shift, Span.shift, Opener.span,
    Error.badSyntax.injEq, SyntaxError.mk.injEq, Span.mk.injEq, true_and]
  omega

/-- Leaves are read from left to right, so the first opener that stands too deep is that of the
first leaf that has one. -/
theorem traverse_limited {f : ReadLeaf → Except Error Expr} {g : Error → Error} {position : Nat}
    {openers : ReadLeaf → List Opener} {tree : ArgTree ReadLeaf}
    (h : ∀ leaf ∈ tree.expressions,
      (f leaf).mapError g = limited n position (openers leaf) (.ok leaf.value)) :
    (tree.traverse f).mapError g =
      limited n position (tree.expressions.flatMap openers) (.ok (tree.map ReadLeaf.value)) := by
  induction tree with
  | omitted => rfl
  | leaf leaf =>
    have hleaf := h leaf (by simp)
    rw [ArgTree.traverse, mapError_map, hleaf, limited_map, ArgTree.expressions_leaf,
      List.flatMap_singleton]
    rfl
  | group level slots ih =>
    have hslots : (slots.mapM (ArgTree.traverse f)).mapError g =
        limited n position ((slots.flatMap ArgTree.expressions).flatMap openers)
          (.ok (slots.map (ArgTree.map ReadLeaf.value))) := by
      induction slots with
      | nil => rfl
      | cons slot others ihslots =>
        rw [ArgTree.expressions_group, List.flatMap_cons, List.forall_mem_append] at h
        have hslot := ih slot (by simp) h.1
        have hothers := ihslots (fun slot hslot => ih slot (by simp [hslot])) (by simpa using h.2)
        rw [List.mapM_cons, mapError_bind, hslot, limited_bind, List.flatMap_cons,
          List.flatMap_append, limited_append]
        refine congrArg _ ?_
        change (_ >>= _ : Except Error _).mapError g = _
        rw [mapError_bind, hothers, limited_bind]
        rfl
    rw [ArgTree.traverse, ArgTree.traverseSlots_eq_mapM, mapError_map, hslots, limited_map,
      ArgTree.map, ArgTree.mapSlots_eq_map, ArgTree.expressions_group]
    rfl

/-! ### What is nested -/

section Within

variable {head : List Char} {openers : List Opener} {position : Nat}

/-- What a construct does with the reader for one level less is **limited** at its opener and
inside. -/
theorem nested_bind_limited {α : Type} {k : Reader → Except Error α} {outcome : Except Error α}
    (h : ∀ m, n = m + 1 → k (operandAt grid false m) =
      limited m (position + byteLength head) openers outcome) :
    (nested (deeperAt grid false n) ((Opener.last head).span position) >>= k) =
      limited n position (.last head :: openers.map (.inside head)) outcome := by
  cases n with
  | zero => rfl
  | succ m =>
    rw [limited_inside]
    exact h m rfl

theorem unaryOperand_limited {op : UnaryOp} {s last : TokenStream} {e : Expr}
    (h : ∀ m, n = m + 1 → operandAt grid false m s =
      limited m (position + byteLength head) openers (.ok (e, last))) :
    unaryOperand (deeperAt grid false n) op ((Opener.last head).span position) s =
      limited n position (.last head :: openers.map (.inside head)) (.ok (.unary op e, last)) := by
  refine nested_bind_limited fun m hm => ?_
  rw [h m hm, limited_bind]
  rfl

theorem parenthesized_limited {s behind last : TokenStream} {closing : Span} {e : Expr}
    (hclose : behind = .token .roundClose closing last)
    (h : ∀ m, n = m + 1 → chain (operandAt grid false m) s =
      limited m (position + byteLength head) openers (.ok (e, behind))) :
    parenthesized (deeperAt grid false n) ((Opener.last head).span position) s =
      limited n position (.last head :: openers.map (.inside head)) (.ok (.paren e, last)) := by
  refine nested_bind_limited fun m hm => ?_
  rw [h m hm, limited_bind, hclose]
  rfl

theorem bracketed_limited {s last : TokenStream} {closing : Span} {es : List Expr}
    (h : ∀ m, n = m + 1 → elements (chain (operandAt grid false m)) s =
      limited m (position + byteLength head) openers (.ok (es, .token .squareClose closing last))) :
    bracketed (deeperAt grid false n) ((Opener.last head).span position) s =
      limited n position (.last head :: openers.map (.inside head)) (.ok (.sequence es, last)) := by
  refine nested_bind_limited fun m hm => ?_
  have hread := h m hm
  split
  · next span rest =>
    -- a bracket that closes is no expression, and that is another error
    have herror : elements (chain (operandAt grid false m)) (.token .squareClose span rest) =
        .error (Error.ofFault (.unexpectedToken .squareClose) span) := by
      rw [elements, operandAt_eq]
      rfl
    rw [herror] at hread
    unfold limited at hread
    split at hread <;> cases hread
  · rw [hread, limited_bind]
    rfl

theorem bracketed_empty_limited {last : TokenStream} {closing : Span} :
    bracketed (deeperAt grid false n) ((Opener.last head).span position)
        (.token .squareClose closing last) =
      limited n position [.last head] (.ok (.sequence [], last)) := by
  cases n <;> rfl

/-- Arguments are **limited** at the parenthesis in front of them and at the openers of their
leaves. -/
theorem arguments_limited {name : String} {arguments behind : List Char} {tree : ArgTree ReadLeaf}
    (hopens : Opens name head (arguments ++ ')' :: behind))
    (hleaf : tree.map ReadLeaf.leaf = ArgTree.outline arguments)
    (hphrases : ∀ leaf ∈ tree.expressions,
      Phrase grid (.chain 1) leaf.leaf.text [] leaf.value leaf.openers)
    (hread : ∀ leaf ∈ tree.expressions, ∀ m,
      ReadWithin grid m (.chain 1) leaf.leaf.text [] leaf.value leaf.openers)
    (hposition : position + byteLength head + byteLength arguments ≤ maxPosition) :
    Expr.arguments false (deeperAt grid false n) ((Opener.last head).span position).start arguments =
      limited n position (callOpeners head tree.expressions)
        (.ok (tree.map ReadLeaf.value)) := by
  cases n with
  | zero => rfl
  | succ m =>
    have hhead := hopens.last_in.position_lt
    have hstart : ((Opener.last head).span position).start + 1 = position + byteLength head := by
      simp only [Opener.last, Opener.span] at hhead ⊢
      omega
    rw [deeperAt, arguments_operandAt, hstart, ArgTree.ofText_eq_traverse, ← hleaf,
      ArgTree.traverse_map, callOpeners, limited_inside]
    refine traverse_limited fun leaf hmem => ?_
    have hin : leaf.leaf.In arguments := by
      refine ArgTree.in_of_mem_outline arguments leaf.leaf ?_
      rw [← hleaf]
      exact ArgTree.mem_expressions_map _ hmem
    have hstop := hin.stop_le
    simp only [LeafText.span] at hstop
    have hlength : byteLength leaf.leaf.text ≤ maxPosition := by omega
    have hvalue := readAt_of_readWithin rfl hlength (hread leaf hmem m)
    rw [List.append_nil] at hvalue
    rw [ArgTree.compilePiece, hvalue, limited_shift]
    unfold limited
    cases hfind : leaf.openers.find? fun opener => m < opener.level with
    | none => rfl
    | some opener =>
      have hopener := (hphrases leaf hmem).listed.mem_in opener (List.mem_of_find?_eq_some hfind)
      exact congrArg Except.error (shift_openerError hin hopener hposition)

end Within

/-! ### Phrases are read -/

/-- One expression of a sequence, and what follows a comma behind it. -/
theorem elements_eq {element : Reader} (h : Advances element) (s : TokenStream) :
    elements element s = element s >>= fun (e, behind) =>
      match behind with
      | .token .comma _ rest => do
        let (others, last) ← elements element rest
        pure (e :: others, last)
      | behind => pure ([e], behind) := by
  cases hread : element s with
  | error => rw [elements, hread]; rfl
  | ok read =>
    obtain ⟨e, behind⟩ := read
    dsimp only [bind, Except.bind]
    split
    · next span rest => exact elements_cons h hread
    · next hcomma => exact elements_of_ne hread hcomma

section ReadWithin

variable {opening inner closing text behind : List Char} {e : Expr}
  {openers openers' : List Opener}

theorem readWithin_word {t : Token} (hwritten : Written t text behind)
    (hname : ∀ m, t = .name m → NoCall behind) (hdenotes : t.Denotes grid e) :
    ReadWithin grid n .atom text behind e [] := by
  intro position _ hintact
  obtain ⟨span, hstream, -⟩ := TokenStream.ofTextAt_written hwritten hname position
  rw [hstream, operandAt_eq]
  cases hdenotes with
  | number | text | field | hash => rfl
  | name hstands =>
    rw [operand, hintact, ofName_eq_ok_iff.2 hstands]
    rfl

theorem readWithin_paren (hopening : Written .roundOpen opening (inner ++ (closing ++ behind)))
    (hclosing : Written .roundClose closing behind)
    (hinner : ∀ m, ReadWithin grid m (.chain 1) inner (closing ++ behind) e openers) :
    ReadWithin grid n .atom (opening ++ (inner ++ closing)) behind (.paren e)
      (.last opening :: openers.map (.inside opening)) := by
  intro position hposition hintact
  simp only [List.append_assoc, Text.byteLength_append, ← Nat.add_assoc] at hposition ⊢
  obtain ⟨span, hstream, hspan⟩ :=
    TokenStream.ofTextAt_written hopening (Token.noCall rfl) position
  obtain ⟨span', hclose, -⟩ := TokenStream.ofTextAt_written hclosing (Token.noCall rfl)
    (position + byteLength opening + byteLength inner)
  have hends : Ends (ofTextAt (position + byteLength opening + byteLength inner)
      (closing ++ behind)) := by
    rw [hclose]
    exact .token (.inl rfl)
  rw [hstream, operandAt_eq, operand, hspan rfl, parenthesized_limited hclose fun m _ =>
    chain_of_readWithin (hinner m) _ (by omega) hends, limited_bind]
  rfl

theorem readWithin_empty (hopening : Written .squareOpen opening (closing ++ behind))
    (hclosing : Written .squareClose closing behind) :
    ReadWithin grid n .atom (opening ++ closing) behind (.sequence []) [.last opening] := by
  intro position hposition hintact
  simp only [List.append_assoc, Text.byteLength_append, ← Nat.add_assoc] at hposition ⊢
  obtain ⟨span, hstream, hspan⟩ :=
    TokenStream.ofTextAt_written hopening (Token.noCall rfl) position
  obtain ⟨span', hclose, -⟩ := TokenStream.ofTextAt_written hclosing (Token.noCall rfl)
    (position + byteLength opening)
  rw [hstream, operandAt_eq, operand, hspan rfl, hclose, bracketed_empty_limited, limited_bind]
  rfl

theorem readWithin_sequence {es : List Expr}
    (hopening : Written .squareOpen opening (inner ++ (closing ++ behind)))
    (hclosing : Written .squareClose closing behind)
    (hinner : ∀ m,
      ReadWithin grid m .elements inner (closing ++ behind) (.sequence es) openers) :
    ReadWithin grid n .atom (opening ++ (inner ++ closing)) behind (.sequence es)
      (.last opening :: openers.map (.inside opening)) := by
  intro position hposition hintact
  simp only [List.append_assoc, Text.byteLength_append, ← Nat.add_assoc] at hposition ⊢
  obtain ⟨span, hstream, hspan⟩ :=
    TokenStream.ofTextAt_written hopening (Token.noCall rfl) position
  obtain ⟨span', hclose, -⟩ := TokenStream.ofTextAt_written hclosing (Token.noCall rfl)
    (position + byteLength opening + byteLength inner)
  rw [hstream, operandAt_eq, operand, hspan rfl, bracketed_limited fun m _ =>
    hinner m es rfl _ (by omega) _ _ hclose, limited_bind]
  rfl

section Calls

variable {name : String} {head arguments : List Char} {tree : ArgTree ReadLeaf}
  (hopens : Opens name head (arguments ++ ')' :: behind))
  (hleaf : tree.map ReadLeaf.leaf = ArgTree.outline arguments)
  (hphrases : ∀ leaf ∈ tree.expressions,
    Phrase grid (.chain 1) leaf.leaf.text [] leaf.value leaf.openers)
  (hread : ∀ leaf ∈ tree.expressions, ∀ m,
    ReadWithin grid m (.chain 1) leaf.leaf.text [] leaf.value leaf.openers)
include hopens hleaf hphrases hread

theorem readWithin_call : ReadWithin grid n .atom (head ++ (arguments ++ [')'])) behind
    (.call name (tree.map ReadLeaf.value)) (callOpeners head tree.expressions) := by
  intro position hposition hintact
  have hclosed := closed_of_phrases hleaf hphrases
  obtain ⟨span, hstream⟩ := TokenStream.ofTextAt_opens hopens hclosed position
  simp only [Text.byteLength_append] at hposition
  have htext : head ++ (arguments ++ [')']) ++ behind = head ++ (arguments ++ ')' :: behind) := by
    simp
  rw [htext, hstream, operandAt_eq, operand,
    arguments_limited hopens hleaf hphrases hread (by omega), limited_bind]
  rfl

theorem readWithin_memberCall {target dot : List Char}
    (hdot : Written .dot dot (head ++ (arguments ++ ')' :: behind)))
    (htarget : ReadWithin grid n .target target (dot ++ (head ++ (arguments ++ ')' :: behind))) e
      openers) :
    ReadWithin grid n .target (target ++ (dot ++ (head ++ (arguments ++ [')'])))) behind
      (.memberCall e name (tree.map ReadLeaf.value))
      (openers ++ (callOpeners head tree.expressions).map
        (.shift (byteLength target + byteLength dot))) := by
  intro position hposition hintact
  have hclosed := closed_of_phrases hleaf hphrases
  obtain ⟨span, hstream, -⟩ := TokenStream.ofTextAt_written hdot (Token.noCall rfl)
    (position + byteLength target)
  obtain ⟨span', hstream'⟩ := TokenStream.ofTextAt_opens hopens hclosed
    (position + byteLength target + byteLength dot)
  have htext : target ++ (dot ++ (head ++ (arguments ++ [')']))) ++ behind =
      target ++ (dot ++ (head ++ (arguments ++ ')' :: behind))) := by simp
  have hstop : position + byteLength (target ++ (dot ++ (head ++ (arguments ++ [')'])))) =
      position + byteLength target + byteLength dot +
        byteLength (head ++ (arguments ++ [')'])) := by
    simp only [Text.byteLength_append, Nat.add_assoc]
  rw [hstop] at hposition ⊢
  simp only [Text.byteLength_append, ← Nat.add_assoc] at hposition
  rw [htext, htarget position (by omega) (by rw [hstream]; rfl), hstream, hstream', members,
    arguments_limited hopens hleaf hphrases hread (by omega), limited_bind, limited_append,
    limited_shift, Nat.add_assoc]
  rfl

end Calls

theorem readWithin_member {name : String} {target dot word : List Char}
    (hdot : Written .dot dot (word ++ behind)) (hname : Written (.name name) word behind)
    (hcall : NoCall behind)
    (htarget : ReadWithin grid n .target target (dot ++ (word ++ behind)) e openers) :
    ReadWithin grid n .target (target ++ (dot ++ word)) behind (.member e name) openers := by
  intro position hposition hintact
  simp only [List.append_assoc, Text.byteLength_append, ← Nat.add_assoc] at hposition ⊢
  obtain ⟨span, hstream, -⟩ := TokenStream.ofTextAt_written hdot (Token.noCall rfl)
    (position + byteLength target)
  obtain ⟨span', hstream', -⟩ := TokenStream.ofTextAt_written hname (fun _ _ => hcall)
    (position + byteLength target + byteLength dot)
  rw [htarget position (by omega) (by rw [hstream]; rfl), hstream, hstream']
  rfl

theorem readWithin_unary {op : UnaryOp} {sign : List Char}
    (hsign : Written op.token sign (text ++ behind))
    (hoperand : ∀ m, ReadWithin grid m .operand text behind e openers) :
    ReadWithin grid n .operand (sign ++ text) behind (.unary op e)
      (.last sign :: openers.map (.inside sign)) := by
  intro position hposition hfollows
  simp only [List.append_assoc, Text.byteLength_append, ← Nat.add_assoc] at hposition hfollows ⊢
  obtain ⟨span, hstream, hspan⟩ := TokenStream.ofTextAt_written hsign
    (Token.noCall (by cases op <;> rfl)) position
  have hread : unaryOperand (deeperAt grid false n) op ((Opener.last sign).span position)
      (ofTextAt (position + byteLength sign) (text ++ behind)) = _ :=
    unaryOperand_limited fun m _ => hoperand m _ hposition hfollows
  rw [hstream, operandAt_eq, hspan op.isOpener_token, ← hread]
  cases op <;> rfl

theorem readWithin_binary {op : BinaryOp} {first sign second : List Char} {left right : Expr}
    (hsign : Written (.operator op) sign (second ++ behind))
    (hleft : ReadWithin grid n (.chain op.precedence) first (sign ++ (second ++ behind)) left
      openers)
    (hright : ReadWithin grid n (.chain (op.precedence + 1)) second behind right openers') :
    ReadWithin grid n (.chain op.precedence) (first ++ (sign ++ second)) behind
      (.binary op left right)
      (openers ++ openers'.map (.shift (byteLength first + byteLength sign))) := by
  obtain ⟨operand, others, hjoins, hleft⟩ := hleft
  obtain ⟨next, more, hjoins', hright⟩ := hright
  refine ⟨operand, others ++ (op, next) :: more, hjoins.binary hjoins',
    fun position hposition hfollows => ?_⟩
  simp only [List.append_assoc, Text.byteLength_append, ← Nat.add_assoc] at hposition hfollows ⊢
  obtain ⟨span, hstream, -⟩ := TokenStream.ofTextAt_written hsign (Token.noCall rfl)
    (position + byteLength first)
  rw [hleft position (by omega) (by rw [hstream]; exact .operator), hstream,
    operations_operator (advances_operandAt grid false n), hright _ hposition hfollows,
    limited_bind, limited_bind, limited_append, limited_shift, Nat.add_assoc]
  simp only [bind_assoc, pure_bind, List.cons_append]

theorem readWithin_element (h : ReadWithin grid n (.chain 1) text behind e openers) :
    ReadWithin grid n .elements text behind (.sequence [e]) openers := by
  intro es hes position hposition span rest hstream
  cases hes
  have hread := chain_of_readWithin h position hposition
    (by rw [hstream]; exact .token (.inr (.inl rfl)))
  rw [elements_eq (advances_chain (advances_operandAt grid false n)), hread, limited_bind,
    hstream]
  rfl

theorem readWithin_elements {first comma second : List Char} {es : List Expr}
    (hcomma : Written .comma comma (second ++ behind))
    (hfirst : ReadWithin grid n (.chain 1) first (comma ++ (second ++ behind)) e openers)
    (hothers : ReadWithin grid n .elements second behind (.sequence es) openers') :
    ReadWithin grid n .elements (first ++ (comma ++ second)) behind (.sequence (e :: es))
      (openers ++ openers'.map (.shift (byteLength first + byteLength comma))) := by
  intro es' hes position hposition span rest hstream
  cases hes
  simp only [List.append_assoc, Text.byteLength_append, ← Nat.add_assoc] at hposition hstream ⊢
  obtain ⟨span', hstream', -⟩ := TokenStream.ofTextAt_written hcomma (Token.noCall rfl)
    (position + byteLength first)
  have hread := chain_of_readWithin hfirst position (by omega)
    (by rw [hstream']; exact .token (.inr (.inr rfl)))
  rw [elements_eq (advances_chain (advances_operandAt grid false n)), hread, limited_bind,
    hstream', limited_append, limited_shift, ← Nat.add_assoc]
  refine congrArg _ ?_
  change (elements _ _ >>= _) = _
  rw [hothers es rfl _ hposition span rest hstream, limited_bind]
  rfl

end ReadWithin

/-- A **phrase** is read within any number of levels. -/
theorem readWithin_of_phrase {category : Category} {text behind : List Char} {e : Expr}
    {openers : List Opener} (h : Phrase grid category text behind e openers) (n : Nat) :
    ReadWithin grid n category text behind e openers := by
  induction h generalizing n with
  | word hwritten hname hdenotes => exact readWithin_word hwritten hname hdenotes
  | paren hopening _ hclosing ih => exact readWithin_paren hopening hclosing ih
  | empty hopening hclosing => exact readWithin_empty hopening hclosing
  | sequence hopening _ hclosing ih => exact readWithin_sequence hopening hclosing ih
  | call hopens hleaf hphrases ih => exact readWithin_call hopens hleaf hphrases ih
  | ofAtom _ ih => exact ih n
  | member _ hdot hname hcall ih => exact readWithin_member hdot hname hcall (ih n)
  | memberCall _ hdot hopens hleaf hphrases ih ihleaves =>
    exact readWithin_memberCall hopens hleaf hphrases ihleaves hdot (ih n)
  | ofTarget _ ih =>
    intro position hposition hfollows
    rw [ih n position hposition hfollows.intact, hfollows.members]
  | unary hsign _ ih => exact readWithin_unary hsign ih
  | ofOperand _ ih =>
    refine ⟨_, [], .single _, fun position hposition hfollows => ?_⟩
    rw [unassembled, ih n position hposition hfollows, limited_bind]
    rfl
  | ofTighter _ ih =>
    obtain ⟨first, others, hjoins, hread⟩ := ih n
    exact ⟨first, others, hjoins.ofTighter, hread⟩
  | binary _ hsign _ ihleft ihright => exact readWithin_binary hsign (ihleft n) (ihright n)
  | element _ ih => exact readWithin_element (ih n)
  | elements _ hcomma _ ihfirst ihothers =>
    exact readWithin_elements hcomma (ihfirst n) (ihothers n)

/-- A **formula** is read as its expression, or fails at its first opener that stands too deep. -/
theorem readAt_of_formula {text : List Char} {e : Expr} {openers : List Opener}
    (h : Formula grid text e openers) (hlength : byteLength text ≤ maxPosition) (n : Nat) :
    readAt grid false n text = limited n 0 openers (.ok e) := by
  obtain ⟨body, blanks, rfl, hblanks, hphrase⟩ := h
  rw [Text.byteLength_append] at hlength
  exact readAt_of_readWithin hblanks (by omega) (readWithin_of_phrase hphrase n)

end Expr

end GridFormula
