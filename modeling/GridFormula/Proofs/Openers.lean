import GridFormula.Proofs.Blame
import GridFormula.Proofs.Phrases

/-!
# Openers

The openers of a phrase are tokens of its text: parentheses, square brackets and unary operators, at
the byte positions that they have there. They are listed from left to right, across the arguments of
calls too, because the leaves of an outline follow each other in the text.

## Main definitions

* `Token.isOpener`: the tokens that begin a construct.
* `Opener.In`: openers that stand in a text.
* `LeafText.Ordered`: parts of a text that follow each other in a range of it.
* `Listed`: the openers of a text, from left to right.

## Main results

* `ArgTree.pairwise_outline`: the leaves of an outline follow each other.
* `Phrase.listed`: the openers of a phrase stand in its text and are listed from left to right.
-/

namespace GridFormula

open Text (byteLength allBlank)

/-! ### Openers in a text -/

/-- The tokens that **begin** a construct. -/
def Token.isOpener (t : Token) : Bool :=
  t = .roundOpen || t = .squareOpen || t = .operator .subtract || t = .bang

/-- The characters of the tokens that begin a construct. -/
def Opener.signs : List Char := ['(', '[', '-', '!']

/-- An opener stands **in** a text where the text has one of their characters. -/
def Opener.In (opener : Opener) (text : List Char) : Prop :=
  ∃ before c behind, text = before ++ c :: behind ∧ byteLength before = opener.position ∧
    c ∈ Opener.signs

theorem Opener.utf8Size_of_mem_signs {c : Char} (h : c ∈ Opener.signs) : c.utf8Size = 1 := by
  have hall : Opener.signs.all (fun c => c.utf8Size = 1) = true := by decide
  simpa using List.all_eq_true.1 hall c h

theorem UnaryOp.isOpener_token (op : UnaryOp) : op.token.isOpener = true := by
  cases op <;> rfl

namespace Opener.In

variable {opener : Opener} {text : List Char}

theorem position_lt (h : opener.In text) : opener.position + 1 ≤ byteLength text := by
  obtain ⟨before, c, behind, rfl, hposition, hc⟩ := h
  rw [Text.byteLength_append, Text.byteLength_cons, Opener.utf8Size_of_mem_signs hc]
  omega

theorem append (h : opener.In text) (behind : List Char) : opener.In (text ++ behind) := by
  obtain ⟨before, c, rest, rfl, hposition, hc⟩ := h
  exact ⟨before, c, rest ++ behind, by simp, hposition, hc⟩

/-- An opener is shifted by what stands in front of its text. -/
theorem shift (h : opener.In text) (before : List Char) :
    (opener.shift (byteLength before)).In (before ++ text) := by
  obtain ⟨first, c, rest, rfl, hposition, hc⟩ := h
  refine ⟨before ++ first, c, rest, by simp, ?_, hc⟩
  rw [Text.byteLength_append, hposition]
  rfl

theorem inside (h : opener.In text) (head : List Char) :
    (opener.inside head).In (head ++ text) :=
  h.shift head

/-- Openers of a leaf stand in what the leaf is a part of. -/
theorem of_leaf {leaf : LeafText} (hleaf : leaf.In text) (h : opener.In leaf.text) :
    (opener.shift leaf.offset).In text := by
  obtain ⟨before, behind, rfl, hoffset⟩ := hleaf
  rw [← hoffset]
  exact (h.shift before).append behind

end Opener.In

/-- A token that begins a construct is one character. -/
theorem Lexeme.exists_sign_of_isOpener {source behind : List Char} {t : Token}
    (h : Made source t behind) (ht : t.isOpener = true) :
    ∃ c ∈ Opener.signs, source = [c] := by
  cases h with
  | sign hmem _ =>
    have hall : signs.all (fun sign => !sign.2.isOpener ||
        Opener.signs.any fun c => sign.1 = [c]) = true := by decide
    have hsign := List.all_eq_true.1 hall _ hmem
    simpa only [ht, Bool.not_true, Bool.false_or, List.any_eq_true, decide_eq_true_eq] using hsign
  | text => cases ht
  | field => cases ht
  | number => cases ht
  | name => cases ht

/-- The last byte of such a token is an opener. -/
theorem Written.last_in {t : Token} {word behind : List Char} (h : Written t word behind)
    (ht : t.isOpener = true) : (Opener.last word).In word := by
  obtain ⟨blanks, source, rfl, -, hmade⟩ := h
  obtain ⟨c, hc, rfl⟩ := Lexeme.exists_sign_of_isOpener hmade ht
  refine ⟨blanks, c, [], rfl, ?_, hc⟩
  simp [Opener.last, Opener.utf8Size_of_mem_signs hc]

theorem Opens.last_in {n : String} {head behind : List Char} (h : Opens n head behind) :
    (Opener.last head).In head := by
  obtain ⟨name, opening, rfl, -, hopening⟩ := h
  have hlast := hopening.last_in rfl
  have hone : 1 ≤ byteLength opening := Nat.le_trans (Nat.le_add_left 1 _) hlast.position_lt
  have hshift : Opener.last (name ++ opening) = (Opener.last opening).shift (byteLength name) := by
    rw [Opener.last, Text.byteLength_append, Nat.add_sub_assoc hone]
    rfl
  rw [hshift]
  exact hlast.shift name

/-! ### Leaves in order -/

/-- Parts of a text are **ordered** from `start` to `stop` when each begins behind the one before
it. -/
inductive LeafText.Ordered : Nat → Nat → List LeafText → Prop
  /-- No parts. -/
  | nil {start stop : Nat} : start ≤ stop → Ordered start stop []
  /-- A part, and more behind it. -/
  | cons {start stop : Nat} {part : LeafText} {others : List LeafText} : start ≤ part.offset →
      Ordered part.span.stop stop others → Ordered start stop (part :: others)

namespace LeafText.Ordered

variable {start middle stop : Nat} {first second : List LeafText}

theorem of_le (h : Ordered middle stop first) (hle : start ≤ middle) : Ordered start stop first := by
  cases h with
  | nil hle' => exact .nil (Nat.le_trans hle hle')
  | cons hle' hothers => exact .cons (Nat.le_trans hle hle') hothers

theorem mono (h : Ordered start middle first) (hle : middle ≤ stop) : Ordered start stop first := by
  induction h with
  | nil hle' => exact .nil (Nat.le_trans hle' hle)
  | cons hle' _ ih => exact .cons hle' (ih hle)

theorem append (hfirst : Ordered start middle first) (hsecond : Ordered middle stop second) :
    Ordered start stop (first ++ second) := by
  induction hfirst with
  | nil hle => exact hsecond.of_le hle
  | cons hle _ ih => exact .cons hle (ih hsecond)

theorem le_offset (h : Ordered start stop first) : ∀ part ∈ first, start ≤ part.offset := by
  induction h with
  | nil => exact List.forall_mem_nil _
  | @cons start stop part others hle _ ih =>
    refine List.forall_mem_cons.2 ⟨hle, fun other hother => ?_⟩
    have hlater := ih other hother
    simp only [span] at hlater
    omega

theorem pairwise (h : Ordered start stop first) :
    first.Pairwise fun part other => part.span.stop ≤ other.offset := by
  induction h with
  | nil => exact .nil
  | cons _ hothers ih => exact .cons hothers.le_offset ih

end LeafText.Ordered

namespace ArgTree

/-- An outline **keeps to** a piece when its leaves follow each other in it. -/
def KeepsTo (outline : LeafText → ArgTree LeafText) : Prop :=
  ∀ piece, LeafText.Ordered piece.span.start piece.span.stop (outline piece).expressions

theorem KeepsTo.slot {outline : LeafText → ArgTree LeafText} (h : KeepsTo outline) :
    KeepsTo (outlineSlot outline) := by
  intro slot
  unfold outlineSlot
  split
  · exact .nil (Nat.le_add_right ..)
  · obtain ⟨blanks, -, htext⟩ := Text.exists_trim_append slot.text
    have hstop := congrArg byteLength htext
    simp only [Text.byteLength_append] at hstop
    refine ((h slot.trim).of_le (Nat.le_add_right ..)).mono ?_
    simp only [LeafText.span, LeafText.trim]
    omega

/-- Texts with a separator between them follow each other from where the first one begins. -/
theorem KeepsTo.withOffsets {outline : LeafText → ArgTree LeafText} (h : KeepsTo outline) {sep : Char}
    (hsep : sep.utf8Size = 1) (texts : List (List Char)) (start : Nat) :
    LeafText.Ordered start (start + byteLength ([sep].intercalate texts))
      (((Scan.withOffsets start texts).map fun (offset, text) => LeafText.mk offset text).flatMap
        fun slot => (outline slot).expressions) := by
  induction texts generalizing start with
  | nil => exact .nil (Nat.le_refl _)
  | cons text others ih =>
    cases others with
    | nil =>
      have hfirst : LeafText.Ordered start (start + byteLength text)
          (outline ⟨start, text⟩).expressions := h ⟨start, text⟩
      simpa [Scan.withOffsets, List.intercalate] using hfirst
    | cons next others =>
      have hrest := ih (start + byteLength text + 1)
      rw [Scan.intercalate_cons_cons, Scan.withOffsets, List.map_cons, List.flatMap_cons,
        Text.byteLength_append, Text.byteLength_cons, hsep]
      refine (h ⟨start, text⟩).append ?_
      rw [← Nat.add_assoc, ← Nat.add_assoc]
      exact hrest.of_le (Nat.le_succ _)

/-- The pieces between separators follow each other. -/
theorem KeepsTo.split {outline : LeafText → ArgTree LeafText} (h : KeepsTo outline) {level : Level}
    {sep : Char} (hsep : level.separator? = some sep) (piece : LeafText) :
    LeafText.Ordered piece.span.start piece.span.stop
      ((piece.split sep).flatMap fun slot => (outline slot).expressions) := by
  have hall := h.withOffsets (Level.utf8Size_of_separator? hsep) (Scan.pieces sep piece.text)
    piece.offset
  rwa [Scan.intercalate_pieces] at hall

theorem keepsTo_outlineBy (levels : List Level) : KeepsTo (outlineBy levels) := by
  induction levels with
  | nil => exact fun piece => .cons (Nat.le_refl _) (.nil (Nat.le_refl _))
  | cons level finer ih =>
    intro piece
    unfold outlineBy
    split
    · exact ih piece
    · next sep hsep =>
      split
      · rw [expressions_group, List.flatMap_map]
        exact ih.slot.split hsep piece
      · exact ih piece

/-- The leaves of an outline **follow each other** in the text. -/
theorem pairwise_outline (text : List Char) :
    (outline text).expressions.Pairwise fun leaf other => leaf.span.stop ≤ other.offset :=
  ((keepsTo_outlineBy _).slot ⟨0, text⟩).pairwise

end ArgTree

/-! ### Openers in order -/

/-- Openers are **listed** for a text when they stand in it and are listed from left to right. -/
structure Listed (text : List Char) (openers : List Opener) : Prop where
  /-- Every opener stands in the text. -/
  mem_in : ∀ opener ∈ openers, opener.In text
  /-- Every opener stands to the right of the one before it. -/
  pairwise : openers.Pairwise fun opener other => opener.position < other.position

namespace Listed

variable {text first second : List Char} {openers openers' : List Opener}

theorem nil (text : List Char) : Listed text [] := ⟨List.forall_mem_nil _, .nil⟩

theorem append_text (h : Listed text openers) (behind : List Char) :
    Listed (text ++ behind) openers :=
  ⟨fun opener hopener => (h.mem_in opener hopener).append behind, h.pairwise⟩

theorem shift (h : Listed text openers) (before : List Char) :
    Listed (before ++ text) (openers.map (.shift (byteLength before))) := by
  refine ⟨List.forall_mem_map.2 fun opener hopener => (h.mem_in opener hopener).shift before, ?_⟩
  exact List.pairwise_map.2 (h.pairwise.imp fun hlt => Nat.add_lt_add_left hlt _)

theorem inside (h : Listed text openers) (head : List Char) :
    Listed (head ++ text) (openers.map (.inside head)) := by
  refine ⟨List.forall_mem_map.2 fun opener hopener => (h.mem_in opener hopener).inside head, ?_⟩
  exact List.pairwise_map.2 (h.pairwise.imp fun hlt => Nat.add_lt_add_left hlt _)

/-- The openers of two texts, with other characters between them. -/
theorem append (hfirst : Listed first openers) (between : List Char)
    (hsecond : Listed second openers') :
    Listed (first ++ (between ++ second))
      (openers ++ openers'.map (.shift (byteLength first + byteLength between))) := by
  have hmoved := hsecond.shift (first ++ between)
  rw [Text.byteLength_append, List.append_assoc] at hmoved
  refine ⟨List.forall_mem_append.2
    ⟨(hfirst.append_text (between ++ second)).mem_in, hmoved.mem_in⟩, ?_⟩
  refine List.pairwise_append.2 ⟨hfirst.pairwise, hmoved.pairwise, ?_⟩
  intro opener hopener other hother
  obtain ⟨other, -, rfl⟩ := List.mem_map.1 hother
  have hlt := (hfirst.mem_in opener hopener).position_lt
  simp only [Opener.shift]
  omega

/-- The opener of a construct, and the openers in it. -/
theorem cons_inside {head : List Char} (hlast : (Opener.last head).In head)
    (h : Listed text openers) :
    Listed (head ++ text) (.last head :: openers.map (.inside head)) := by
  refine ⟨List.forall_mem_cons.2 ⟨hlast.append text, (h.inside head).mem_in⟩, ?_⟩
  refine List.pairwise_cons.2 ⟨fun other hother => ?_, (h.inside head).pairwise⟩
  obtain ⟨other, -, rfl⟩ := List.mem_map.1 hother
  have hlt := hlast.position_lt
  simp only [Opener.inside]
  omega

/-- The openers of all leaves of argument text. -/
theorem leaves {arguments : List Char} {tree : ArgTree ReadLeaf}
    (hleaf : tree.map ReadLeaf.leaf = ArgTree.outline arguments)
    (h : ∀ leaf ∈ tree.expressions, Listed leaf.leaf.text leaf.openers) :
    Listed arguments
      (tree.expressions.flatMap fun leaf => leaf.openers.map (.shift leaf.leaf.offset)) := by
  have hexpressions : tree.expressions.map ReadLeaf.leaf =
      (ArgTree.outline arguments).expressions := by
    rw [← ArgTree.expressions_map, hleaf]
  refine ⟨fun shifted hshifted => ?_, List.pairwise_flatMap.2 ⟨fun leaf hmem => ?_, ?_⟩⟩
  · obtain ⟨leaf, hmem, hshifted⟩ := List.mem_flatMap.1 hshifted
    obtain ⟨opener, hopener, rfl⟩ := List.mem_map.1 hshifted
    have hin : leaf.leaf.In arguments := by
      refine ArgTree.in_of_mem_outline arguments leaf.leaf ?_
      rw [← hexpressions]
      exact List.mem_map_of_mem hmem
    exact ((h leaf hmem).mem_in opener hopener).of_leaf hin
  · exact List.pairwise_map.2 ((h leaf hmem).pairwise.imp fun hlt => Nat.add_lt_add_left hlt _)
  · have hpairwise := ArgTree.pairwise_outline arguments
    rw [← hexpressions, List.pairwise_map] at hpairwise
    refine hpairwise.imp_of_mem fun {leaf other} hmem _ hle opener hopener opener' hopener' => ?_
    obtain ⟨first, hfirst, rfl⟩ := List.mem_map.1 hopener
    obtain ⟨second, -, rfl⟩ := List.mem_map.1 hopener'
    have hlt := ((h leaf hmem).mem_in first hfirst).position_lt
    simp only [LeafText.span] at hle
    simp only [Opener.shift]
    omega

end Listed

theorem listed_call {n : String} {head arguments behind : List Char} {tree : ArgTree ReadLeaf}
    (hopens : Opens n head (arguments ++ ')' :: behind))
    (hleaf : tree.map ReadLeaf.leaf = ArgTree.outline arguments)
    (h : ∀ leaf ∈ tree.expressions, Listed leaf.leaf.text leaf.openers) :
    Listed (head ++ (arguments ++ [')'])) (callOpeners head tree.expressions) :=
  .cons_inside hopens.last_in ((Listed.leaves hleaf h).append_text _)

/-- The openers of a phrase are **listed** for its text. -/
theorem Phrase.listed {grid : Grid} {category : Category} {text behind : List Char} {e : Expr}
    {openers : List Opener} (h : Phrase grid category text behind e openers) :
    Listed text openers := by
  induction h with
  | word => exact .nil _
  | paren hopening _ _ ih => exact .cons_inside (hopening.last_in rfl) (ih.append_text _)
  | empty hopening => exact .cons_inside (hopening.last_in rfl) (.nil _)
  | sequence hopening _ _ ih => exact .cons_inside (hopening.last_in rfl) (ih.append_text _)
  | call hopens hleaf _ ih => exact listed_call hopens hleaf ih
  | ofAtom _ ih | ofTarget _ ih | ofOperand _ ih | ofTighter _ ih | element _ ih => exact ih
  | member _ _ _ _ ih => exact ih.append_text _
  | memberCall _ _ hopens hleaf _ ih ihleaves =>
    exact ih.append _ (listed_call hopens hleaf ihleaves)
  | @unary op _ _ _ _ _ hsign _ ih => exact .cons_inside (hsign.last_in op.isOpener_token) ih
  | binary _ _ _ ihleft ihright => exact ihleft.append _ ihright
  | elements _ _ _ ihfirst ihothers => exact ihfirst.append _ ihothers

end GridFormula
