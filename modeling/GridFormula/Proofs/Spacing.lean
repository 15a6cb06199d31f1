import GridFormula.Proofs.Reading
import GridFormula.Proofs.WordRows

/-!
# Blanks between words

Blanks may be put into a formula wherever they cut no word, at any depth of its calls, and it is
read as the same expression. The words stay what they are, because a blank ends any word and begins
none. Inside the argument text of a call, which is kept as it is and split later, the pieces are the
same up to blanks, because blanks leave the scan where it is.

## Main definitions

* `Spaced`: a text, and the same text with blanks put in between words.
* `Item.Spaced`: items that differ in such blanks in their arguments.

## Main results

* `ArgTree.exists_pairs_fullSplit`: the full split of a text with blanks put in.
* `Spelled.spaced`, `Derives.spaced`: what such a text spells, and what expression it is.
* `Reads.between`: a text that reads as an expression is a row of words.
* `Expr.compile_spaced`: blanks between words do not change what a text compiles to.
-/

namespace GridFormula

open Text (isBlank allBlank)
open Lexeme (Between InsideWord Meets Part)

/-- The second text is the first one with **blanks put in** between words. -/
def Spaced (text spaced : List Char) : Prop :=
  ∃ before blanks after, text = before ++ after ∧ spaced = before ++ (blanks ++ after) ∧
    allBlank blanks = true ∧ Between before after

theorem Spaced.refl (text : List Char) : Spaced text text :=
  ⟨[], [], text, rfl, rfl, rfl, .nil⟩

theorem Spaced.allBlank_eq {text spaced : List Char} (h : Spaced text spaced) :
    allBlank spaced = allBlank text := by
  obtain ⟨before, blanks, after, rfl, rfl, hblanks, -⟩ := h
  unfold allBlank at hblanks ⊢
  simp [List.all_append, hblanks]

/-- Blanks may be put in behind a first part as well as in front of it. -/
theorem Spaced.cons {part text spaced : List Char} (hpart : Part part text)
    (h : Spaced text spaced) : Spaced (part ++ text) (part ++ spaced) := by
  obtain ⟨before, blanks, after, rfl, rfl, hblanks, hbetween⟩ := h
  exact ⟨part ++ before, blanks, after, by simp, by simp, hblanks, .cons hpart hbetween⟩

/-! ### Splitting -/

namespace Scan

variable {sep : Char}

/-- The first piece stands at the head of the text. -/
theorem exists_append_piecesFrom (sep : Char) (s : State) (text : List Char) :
    ∃ rest, text = (piecesFrom sep s text).1 ++ rest := by
  have htext := intercalate_piecesFrom sep s text
  cases hothers : (piecesFrom sep s text).2 with
  | nil =>
    rw [hothers] at htext
    exact ⟨[], by simpa [List.intercalate] using htext.symm⟩
  | cons next others =>
    rw [hothers, intercalate_cons_cons] at htext
    exact ⟨_, htext.symm⟩

/-- What blanks between words do to the first piece of a text, and to those behind it. -/
theorem piecesFrom_spaced (hsep : Lexeme.isSeparator sep = true) {before after blanks : List Char}
    (h : Between before after) (hblanks : allBlank blanks = true) {s : State}
    (hs : s.isOutside = true) :
    Spaced (piecesFrom sep s (before ++ after)).1
        (piecesFrom sep s (before ++ (blanks ++ after))).1 ∧
      List.Forall₂ Spaced (piecesFrom sep s (before ++ after)).2
        (piecesFrom sep s (before ++ (blanks ++ after))).2 := by
  induction h generalizing s with
  | @nil after =>
    obtain ⟨level, hlevel⟩ := Lexeme.exists_level_of_isSeparator hsep
    have hnone := hasSeparatorFrom_of_allBlank (isBlank_of_separator? hlevel) hblanks s
    rw [List.nil_append, List.nil_append, piecesFrom_append hnone,
      (closed_of_allBlank hblanks).run_of_isOutside hs]
    exact ⟨⟨[], blanks, _, rfl, rfl, hblanks, .nil⟩, List.forall₂_same.2 fun _ _ => .refl _⟩
  | @cons part before after hpart _ ih =>
    have hrun := hpart.isOutside hs
    rw [List.append_assoc, List.append_assoc]
    by_cases hcounts : hasSeparatorFrom sep s part = true
    · obtain rfl := (hpart.eq_separator_or hsep hs).resolve_right (by simp [hcounts])
      have htop : s.isTop = true := by simpa [hasSeparatorFrom] using hcounts
      simp only [List.singleton_append, piecesFrom, htop, decide_true, Bool.and_self, if_true]
      exact ⟨.refl [], .cons (ih rfl).1 (ih rfl).2⟩
    · rw [Bool.not_eq_true] at hcounts
      obtain ⟨hfirst, hothers⟩ := ih hrun
      rw [piecesFrom_append hcounts, piecesFrom_append hcounts]
      refine ⟨.cons ?_ hfirst, hothers⟩
      obtain ⟨rest, hrest⟩ := exists_append_piecesFrom sep (s.run part) (before ++ after)
      rw [hrest] at hpart
      exact hpart.meets (Lexeme.meets_of_append _ rest)

/-- The pieces of a text with blanks put in are **those of the text**, with the blanks in one of
them. -/
theorem pieces_spaced (hsep : Lexeme.isSeparator sep = true) {text spaced : List Char}
    (h : Spaced text spaced) : List.Forall₂ Spaced (pieces sep text) (pieces sep spaced) := by
  obtain ⟨before, blanks, after, rfl, rfl, hblanks, hbetween⟩ := h
  obtain ⟨hfirst, hothers⟩ := piecesFrom_spaced hsep hbetween hblanks (s := .top) rfl
  exact .cons hfirst hothers

end Scan

namespace ArgTree

theorem map_collapse {ε φ : Type} (f : ε → φ) (level : Level) (parts : List (ArgTree ε)) :
    (collapse level parts).map f = collapse level (parts.map (map f)) := by
  cases parts with
  | nil => rfl
  | cons part others =>
    cases others with
    | nil => rfl
    | cons next others => rw [collapse.eq_def, map, mapSlots_eq_map]; rfl

/-- A way to split texts **follows** blanks that are put in between words: the leaves are the same
up to such blanks, and to blanks at their ends. -/
def Follows (split : List Char → ArgTree (List Char)) : Prop :=
  ∀ ⦃text spaced⦄, Spaced text spaced → ∃ pairs : ArgTree (List Char × List Char),
    pairs.map (fun pair => Text.trim pair.1) = split text ∧
      pairs.map (fun pair => Text.trim pair.2) = split spaced ∧
      ∀ pair ∈ pairs.expressions, Spaced pair.1 pair.2

theorem follows_innermost : Follows innermost := by
  intro text spaced h
  unfold innermost
  rw [h.allBlank_eq]
  split
  · exact ⟨.omitted, rfl, rfl, nofun⟩
  · exact ⟨.leaf (text, spaced), rfl, rfl, by simpa using h⟩

theorem Follows.cut {inner : List Char → ArgTree (List Char)} (hinner : Follows inner)
    (level : Level) {sep : Char} (hsep : Lexeme.isSeparator sep = true) :
    Follows (cut level sep inner) := by
  intro text spaced h
  -- one tree of pairs for each piece
  have hparts : List.Forall₂ (fun split split' => ∃ pairs : ArgTree (List Char × List Char),
      pairs.map (fun pair => Text.trim pair.1) = split ∧
        pairs.map (fun pair => Text.trim pair.2) = split' ∧
        ∀ pair ∈ pairs.expressions, Spaced pair.1 pair.2)
      ((Scan.pieces sep text).map inner) ((Scan.pieces sep spaced).map inner) := by
    rw [List.forall₂_map_left_iff, List.forall₂_map_right_iff]
    exact (Scan.pieces_spaced hsep h).imp fun _ _ hpiece => hinner hpiece
  obtain ⟨trees, htexts, hspaceds, hpairs⟩ := exists_row hparts
  refine ⟨collapse level trees, ?_, ?_, ?_⟩
  · rw [map_collapse, htexts]
    rfl
  · rw [map_collapse, hspaceds]
    rfl
  · rwa [expressions_collapse]

/-- The **full split** of a text with blanks put in has the same leaves, up to such blanks. -/
theorem exists_pairs_fullSplit {text spaced : List Char} (h : Spaced text spaced) :
    ∃ pairs : ArgTree (List Char × List Char),
      pairs.map (fun pair => Text.trim pair.1) = fullSplit text ∧
        pairs.map (fun pair => Text.trim pair.2) = fullSplit spaced ∧
        ∀ pair ∈ pairs.expressions, Spaced pair.1 pair.2 := by
  have hcolon : Follows (cut .colon ':' innermost) := follows_innermost.cut .colon rfl
  have hcomma : Follows (cut .comma ',' (cut .colon ':' innermost)) := hcolon.cut .comma rfl
  exact hcomma.cut .semicolon rfl h

end ArgTree

/-! ### Spelling -/

/-- Items that are the same up to **blanks between the words** of their arguments. -/
inductive Item.Spaced : Item → Item → Prop
  /-- Tokens are the same. -/
  | token (t : Token) : Item.Spaced (.token t) (.token t)
  /-- Calls have the same name. -/
  | call (name : String) {arguments arguments' : List Char} :
      GridFormula.Spaced arguments arguments' →
        Item.Spaced (.call name arguments) (.call name arguments')

theorem Item.Spaced.refl (item : Item) : item.Spaced item := by
  cases item with
  | token t => exact .token t
  | call name arguments => exact .call name (.refl arguments)

theorem spaced_self (items : List Item) : List.Forall₂ Item.Spaced items items :=
  List.forall₂_same.2 fun item _ => .refl item

section Insertion

variable {blanks : List Char} (hblanks : allBlank blanks = true)
include hblanks

theorem allBlank_insert {before rest : List Char} (h : allBlank (before ++ rest) = true) :
    allBlank (before ++ (blanks ++ rest)) = true := by
  unfold allBlank at hblanks h ⊢
  simp only [List.all_append, Bool.and_eq_true] at h ⊢
  exact ⟨h.1, hblanks, h.2⟩

/-- A text with blanks put in **meets** what stands in front of it as it did before. -/
theorem meets_insert (before rest : List Char) :
    Meets (before ++ rest) (before ++ (blanks ++ rest)) := by
  refine Meets.append (fun c hc => ?_) before
  cases blanks with
  | nil => exact .inr hc
  | cons d more =>
    cases hc
    exact .inl (List.all_eq_true.1 hblanks c (List.mem_cons_self ..))

/-- A word stays one when blanks are put in **behind** it. -/
theorem word_insert {source behind before rest : List Char} {t : Token}
    (h : Lexeme.Word source t behind) (heq : behind = before ++ rest) :
    Lexeme.Word source t (before ++ (blanks ++ rest)) := by
  rw [heq] at h
  exact h.meets (meets_insert hblanks before rest)

/-- Blanks that are put in make no call. -/
theorem noCall_insert {before rest : List Char} (h : NoCall (before ++ rest)) :
    NoCall (before ++ (blanks ++ rest)) := by
  unfold NoCall at h ⊢
  rw [List.dropWhile_append] at h ⊢
  cases hdrop : before.dropWhile isBlank with
  | nil =>
    rw [hdrop] at h
    rw [List.dropWhile_append_of_pos (List.all_eq_true.1 hblanks)]
    exact h
  | cons c back =>
    rw [hdrop] at h
    rintro tail ⟨⟩
    exact h _ rfl

end Insertion

/-- A point between words in a text of blanks, a word and more stands **among the blanks or behind
the word**. -/
theorem point_cases {gap source rest before after behind : List Char} {t : Token}
    (hgap : allBlank gap = true) (hword : Lexeme.Word source t (rest ++ behind))
    (h : Between before (after ++ behind)) (heq : gap ++ (source ++ rest) = before ++ after) :
    (∃ right, gap = before ++ right ∧ after = right ++ (source ++ rest)) ∨
      ∃ before', before = gap ++ (source ++ before') ∧ rest = before' ++ after ∧
        Between before' (after ++ behind) := by
  rcases List.append_eq_append_iff.1 heq with ⟨before', rfl, hrest⟩ | ⟨right, rfl, rfl⟩
  · have hbehind := h.drop (Lexeme.between_of_allBlank hgap _)
    have htext : source ++ (rest ++ behind) = before' ++ (after ++ behind) := by
      rw [← List.append_assoc, hrest, List.append_assoc]
    rcases hbehind.uncons (.word hword) htext with rfl | ⟨before'', rfl, -, hbetween⟩
    · exact .inl ⟨[], by simp, by simpa using hrest.symm⟩
    · rw [List.append_assoc] at hrest
      exact .inr ⟨before'', rfl, List.append_cancel_left hrest, hbetween⟩
  · exact .inl ⟨right, rfl, rfl⟩

/-- A point between words behind an opening parenthesis stands **in the arguments or behind the
closing one**, from which on the row is one of words again. -/
theorem argument_cases {arguments rest before after behind : List Char}
    (hsplit : Scan.splitAtCloser .round (arguments ++ ')' :: (rest ++ behind)) =
      some (arguments, rest ++ behind))
    (h : Between before (after ++ behind)) (heq : arguments ++ ')' :: rest = before ++ after) :
    (∃ inner, arguments = before ++ inner ∧ after = inner ++ ')' :: rest) ∨
      ∃ before', before = arguments ++ ')' :: before' ∧ rest = before' ++ after ∧
        Between before' (after ++ behind) := by
  rcases List.append_eq_append_iff.1 heq with ⟨back, rfl, hback⟩ | ⟨inner, harguments, hafter⟩
  · cases back with
    | nil => exact .inl ⟨[], by simp, hback.symm⟩
    | cons c before' =>
      obtain ⟨rfl, rfl⟩ := List.cons.inj hback
      -- the scan finds this parenthesis, so that a part of the row ends with it
      have hbehind := h.of_splitAtTop rfl rfl (Scan.splitAtTop_append hsplit before')
      exact .inr ⟨before', rfl, rfl, hbehind⟩
  · exact .inl ⟨inner, harguments, hafter⟩

/-- A call is spelled as well with blanks put in between the words of its **arguments**. -/
theorem spells_insert_arguments {gap source gap' before inner rest behind blanks : List Char}
    {name : String} {items : List Item} (hblanks : allBlank blanks = true)
    (hgap : allBlank gap = true) (hgap' : allBlank gap' = true)
    (hword : Lexeme.Word source (.name name)
      (gap' ++ '(' :: ((before ++ inner) ++ ')' :: (rest ++ behind))))
    (hsplit : Scan.splitAtCloser .round ((before ++ inner) ++ ')' :: (rest ++ behind)) =
      some (before ++ inner, rest ++ behind))
    (hrest : Spells items rest behind)
    (hbetween : Between before (inner ++ ')' :: (rest ++ behind))) :
    Spells (.call name (before ++ (blanks ++ inner)) :: items)
      (gap ++ (source ++ (gap' ++ '(' :: ((before ++ (blanks ++ inner)) ++ ')' :: rest))))
      behind := by
  have hword' : Lexeme.Word source (.name name)
      ((gap' ++ '(' :: before) ++ (blanks ++ (inner ++ ')' :: (rest ++ behind)))) :=
    word_insert hblanks hword (by simp)
  have hclosed : Scan.splitAtTop (.inside .round) (before ++ (inner ++ ')' :: (rest ++ behind))) =
      some (before ++ inner, rest ++ behind) := by simpa [Scan.splitAtCloser] using hsplit
  have hclosed' := hbetween.splitAtTop_insert rfl rfl hblanks hclosed
  exact .call hgap hgap' (by simpa using hword') (by simpa [Scan.splitAtCloser] using hclosed')
    hrest

/-- A row of items is spelled as well with **blanks put in** anywhere between its words, also
between those of arguments, but not at its end. -/
theorem Spells.spaced {items : List Item} {text behind : List Char} (h : Spells items text behind)
    {blanks : List Char} (hblanks : allBlank blanks = true) {before after : List Char}
    (htext : text = before ++ after) (hafter : after ≠ [])
    (hbetween : Between before (after ++ behind)) :
    ∃ items', Spells items' (before ++ (blanks ++ after)) behind ∧
      List.Forall₂ Item.Spaced items items' := by
  induction h generalizing before with
  | nil => exact absurd (List.append_eq_nil_iff.1 htext.symm).2 hafter
  | @token gap source rest behind t items hgap hword hname hrest ih =>
    rcases point_cases hgap hword hbetween htext with ⟨right, rfl, rfl⟩ |
      ⟨before', rfl, rfl, hbetween'⟩
    · -- the blanks join those in front of the word
      have hspells : Spells (.token t :: items) ((before ++ (blanks ++ right)) ++ (source ++ rest))
          behind := .token (allBlank_insert hblanks hgap) hword hname hrest
      exact ⟨_, by simpa using hspells, spaced_self _⟩
    · obtain ⟨items', hspells, hitems⟩ := ih rfl hbetween'
      rw [List.append_assoc] at hword hname
      have hword' := word_insert hblanks hword rfl
      have hname' := fun name heq => noCall_insert hblanks (hname name heq)
      have hspells' : Spells (.token t :: items')
          (gap ++ (source ++ (before' ++ (blanks ++ after)))) behind :=
        .token hgap (by simpa using hword') (by simpa using hname') hspells
      exact ⟨_, by simpa using hspells', .cons (.token t) hitems⟩
  | @call gap source gap' arguments rest behind name items hgap hgap' hword hsplit hrest ih =>
    have hname : Lexeme.Word source (.name name)
        ((gap' ++ '(' :: (arguments ++ ')' :: rest)) ++ behind) := by simpa using hword
    rcases point_cases hgap hname hbetween htext with ⟨right, rfl, rfl⟩ |
      ⟨before', rfl, hbehind, hbetween'⟩
    · have hspells : Spells (.call name arguments :: items) ((before ++ (blanks ++ right)) ++
          (source ++ (gap' ++ '(' :: (arguments ++ ')' :: rest)))) behind :=
        .call (allBlank_insert hblanks hgap) hgap' hword hsplit hrest
      exact ⟨_, by simpa using hspells, spaced_self _⟩
    have hopener : Lexeme.Word ['('] .roundOpen ((arguments ++ ')' :: rest) ++ behind) :=
      Lexeme.word_of_made (Lexeme.made_mark (by decide) _)
    rcases point_cases hgap' hopener hbetween' hbehind with ⟨right, rfl, rfl⟩ |
      ⟨before', rfl, hbehind', hbetween''⟩
    · -- the blanks join those between the name and the parenthesis
      have hword' := word_insert hblanks hword (List.append_assoc ..)
      have hspells : Spells (.call name arguments :: items) (gap ++ (source ++
          ((before' ++ (blanks ++ right)) ++ '(' :: (arguments ++ ')' :: rest)))) behind :=
        .call hgap (allBlank_insert hblanks hgap') (by simpa using hword') hsplit hrest
      exact ⟨_, by simpa using hspells, spaced_self _⟩
    rcases argument_cases hsplit hbetween'' hbehind' with ⟨inner, rfl, rfl⟩ |
      ⟨before', rfl, rfl, hbetween''⟩
    · have hinner : Between before' (inner ++ ')' :: (rest ++ behind)) := by
        simpa using hbetween''
      have hspells := spells_insert_arguments hblanks hgap hgap' hword hsplit hrest hinner
      refine ⟨_, by simpa using hspells, .cons (.call name ?_) (spaced_self _)⟩
      exact ⟨before', blanks, inner, rfl, rfl, hblanks,
        hinner.meets (Lexeme.meets_of_append inner _)⟩
    · obtain ⟨items', hspells, hitems⟩ := ih rfl hbetween''
      have hword' : Lexeme.Word source (.name name)
          ((gap' ++ '(' :: (arguments ++ ')' :: before')) ++ (blanks ++ (after ++ behind))) :=
        word_insert hblanks hword (by simp)
      have hspells' : Spells (.call name arguments :: items') (gap ++ (source ++
          (gap' ++ '(' :: (arguments ++ ')' :: (before' ++ (blanks ++ after)))))) behind :=
        .call hgap hgap' (by simpa using hword') (Scan.splitAtTop_append hsplit _) hspells
      exact ⟨_, by simpa using hspells', .cons (.refl _) hitems⟩

/-- What a text spells is **spelled with blanks put in** as well. -/
theorem Spelled.spaced {text spaced : List Char} {items : List Item} (h : Spelled text items)
    (hspaced : Spaced text spaced) :
    ∃ items', Spelled spaced items' ∧ List.Forall₂ Item.Spaced items items' := by
  obtain ⟨spelling, last, rfl, hlast, hspells⟩ := h
  obtain ⟨before, blanks, after, htext, rfl, hblanks, hbetween⟩ := hspaced
  have hend : ∀ {left right}, last = left ++ right → ∃ items',
      Spelled (spelling ++ (left ++ (blanks ++ right))) items' ∧
        List.Forall₂ Item.Spaced items items' := by
    rintro left right rfl
    have hlast' := allBlank_insert hblanks hlast
    exact ⟨items, ⟨spelling, _, rfl, hlast', hspells.blanks hlast hlast'⟩, spaced_self items⟩
  rcases List.append_eq_append_iff.1 htext with ⟨left, rfl, hleft⟩ | ⟨inner, rfl, rfl⟩
  · simpa using hend hleft
  · by_cases hinner : inner = []
    · subst hinner
      simpa using hend (List.nil_append last).symm
    · obtain ⟨items', hspells', hitems⟩ := hspells.spaced hblanks rfl hinner hbetween
      exact ⟨items', ⟨before ++ (blanks ++ inner), last, by simp, hlast, hspells'⟩, hitems⟩

/-! ### Phrases -/

theorem exists_of_forall₂_append {α β : Type} {R : α → β → Prop} {first second : List α}
    {row : List β} (h : List.Forall₂ R (first ++ second) row) :
    ∃ first' second', row = first' ++ second' ∧ List.Forall₂ R first first' ∧
      List.Forall₂ R second second' := by
  have hflip := h.flip
  exact ⟨row.take first.length, row.drop first.length, (List.take_append_drop ..).symm,
    (List.forall₂_take_append _ _ _ hflip).flip, (List.forall₂_drop_append _ _ _ hflip).flip⟩

section Rows

variable {items row : List Item}

theorem exists_of_spaced_token {t : Token}
    (h : List.Forall₂ Item.Spaced (.token t :: items) row) :
    ∃ items', row = .token t :: items' ∧ List.Forall₂ Item.Spaced items items' := by
  cases h with
  | cons ht h =>
    cases ht
    exact ⟨_, rfl, h⟩

theorem eq_of_spaced_token {t : Token} (h : List.Forall₂ Item.Spaced [.token t] row) :
    row = [.token t] := by
  obtain ⟨items', rfl, hnil⟩ := exists_of_spaced_token h
  cases hnil
  rfl

theorem exists_of_spaced_call {name : String} {arguments : List Char}
    (h : List.Forall₂ Item.Spaced [.call name arguments] row) :
    ∃ arguments', row = [.call name arguments'] ∧ Spaced arguments arguments' := by
  cases h with
  | cons hcall h =>
    cases hcall
    cases h
    exact ⟨_, rfl, ‹_›⟩

end Rows

/-- The pieces of arguments with blanks put in, when each piece with blanks put in is the same
expression. -/
theorem exists_pieces_spaced {grid : Grid} {arguments arguments' : List Char}
    {pieces : ArgTree Piece} (htext : pieces.map Piece.text = ArgTree.fullSplit arguments)
    (hspelled : ∀ piece ∈ pieces.expressions, Spelled piece.text piece.items)
    (hspaced : ∀ piece ∈ pieces.expressions, ∀ {items'},
      List.Forall₂ Item.Spaced piece.items items' → Derives grid (.chain 1) items' piece.value)
    (h : Spaced arguments arguments') :
    ∃ pieces' : ArgTree Piece, pieces'.map Piece.text = ArgTree.fullSplit arguments' ∧
      (∀ piece ∈ pieces'.expressions, Spelled piece.text piece.items) ∧
      (∀ piece ∈ pieces'.expressions, Derives grid (.chain 1) piece.items piece.value) ∧
      pieces'.map Piece.value = pieces.map Piece.value := by
  obtain ⟨texts, hfirst, hsecond, htexts⟩ := ArgTree.exists_pairs_fullSplit h
  obtain ⟨places, rfl, rfl, hplaces⟩ := ArgTree.exists_zip (htext.trans hfirst.symm)
  have hitems : ∀ place ∈ places.expressions, ∃ items', Spelled (Text.trim place.2.2) items' ∧
      Derives grid (.chain 1) items' place.1.value := by
    intro place hplace
    have hpiece := ArgTree.mem_expressions_map Prod.fst hplace
    have hspells := hspelled place.1 hpiece
    rw [hplaces place hplace, ← spelled_padded (Text.padded_trim _)] at hspells
    obtain ⟨items', hspells', hitems⟩ :=
      hspells.spaced (htexts place.2 (ArgTree.mem_expressions_map Prod.snd hplace))
    exact ⟨items', (spelled_padded (Text.padded_trim _)).1 hspells', hspaced place.1 hpiece hitems⟩
  choose! items' hspells' hderives' using hitems
  refine ⟨places.map fun place => ⟨Text.trim place.2.2, items' place, place.1.value⟩,
    ?_, ?_, ?_, ?_⟩
  · rw [ArgTree.map_map, ← hsecond, ArgTree.map_map]
  · rw [ArgTree.expressions_map, List.forall_mem_map]
    exact hspells'
  · rw [ArgTree.expressions_map, List.forall_mem_map]
    exact hderives'
  · rw [ArgTree.map_map, ArgTree.map_map]

/-- An expression is **derived from items with blanks put in** as well. -/
theorem Derives.spaced {grid : Grid} {category : Category} {items : List Item} {e : Expr}
    (h : Derives grid category items e) {items' : List Item}
    (hitems : List.Forall₂ Item.Spaced items items') : Derives grid category items' e := by
  induction h generalizing items' with
  | number =>
    obtain rfl := eq_of_spaced_token hitems
    exact .number
  | text =>
    obtain rfl := eq_of_spaced_token hitems
    exact .text
  | field =>
    obtain rfl := eq_of_spaced_token hitems
    exact .field
  | hash =>
    obtain rfl := eq_of_spaced_token hitems
    exact .hash
  | name hstands =>
    obtain rfl := eq_of_spaced_token hitems
    exact .name hstands
  | paren _ ih =>
    obtain ⟨_, rfl, hrest⟩ := exists_of_spaced_token hitems
    obtain ⟨inner, _, rfl, hinner, hclosing⟩ := exists_of_forall₂_append hrest
    obtain rfl := eq_of_spaced_token hclosing
    exact .paren (ih hinner)
  | empty =>
    obtain ⟨_, rfl, hrest⟩ := exists_of_spaced_token hitems
    obtain rfl := eq_of_spaced_token hrest
    exact .empty
  | sequence _ ih =>
    obtain ⟨_, rfl, hrest⟩ := exists_of_spaced_token hitems
    obtain ⟨inner, _, rfl, hinner, hclosing⟩ := exists_of_forall₂_append hrest
    obtain rfl := eq_of_spaced_token hclosing
    exact .sequence (ih hinner)
  | call htext hspelled _ ih =>
    obtain ⟨arguments', rfl, harguments⟩ := exists_of_spaced_call hitems
    obtain ⟨pieces', htext', hspelled', hderives', hvalue⟩ :=
      exists_pieces_spaced htext hspelled ih harguments
    rw [← hvalue]
    exact .call htext' hspelled' hderives'
  | ofAtom _ ih => exact .ofAtom (ih hitems)
  | member _ ih =>
    obtain ⟨target, _, rfl, htarget, hmember⟩ := exists_of_forall₂_append hitems
    obtain ⟨_, rfl, hname⟩ := exists_of_spaced_token hmember
    obtain rfl := eq_of_spaced_token hname
    exact .member (ih htarget)
  | memberCall _ htext hspelled _ ih ihpieces =>
    obtain ⟨target, _, rfl, htarget, hmember⟩ := exists_of_forall₂_append hitems
    obtain ⟨_, rfl, hcall⟩ := exists_of_spaced_token hmember
    obtain ⟨arguments', rfl, harguments⟩ := exists_of_spaced_call hcall
    obtain ⟨pieces', htext', hspelled', hderives', hvalue⟩ :=
      exists_pieces_spaced htext hspelled ihpieces harguments
    rw [← hvalue]
    exact .memberCall (ih htarget) htext' hspelled' hderives'
  | ofTarget _ ih => exact .ofTarget (ih hitems)
  | unary _ ih =>
    obtain ⟨_, rfl, hoperand⟩ := exists_of_spaced_token hitems
    exact .unary (ih hoperand)
  | ofOperand _ ih => exact .ofOperand (ih hitems)
  | ofTighter _ ih => exact .ofTighter (ih hitems)
  | binary _ _ ihleft ihright =>
    obtain ⟨left, _, rfl, hleft, hrest⟩ := exists_of_forall₂_append hitems
    obtain ⟨right, rfl, hright⟩ := exists_of_spaced_token hrest
    exact .binary (ihleft hleft) (ihright hright)
  | element _ ih => exact .element (ih hitems)
  | elements _ _ ihfirst ihothers =>
    obtain ⟨first, _, rfl, hfirst, hrest⟩ := exists_of_forall₂_append hitems
    obtain ⟨others, rfl, hothers⟩ := exists_of_spaced_token hrest
    exact .elements (ihfirst hfirst) (ihothers hothers)

/-- A text with blanks put in between words **reads as the same expression**. -/
theorem Reads.spaced {grid : Grid} {text spaced : List Char} {e : Expr} (h : Reads grid text e)
    (hspaced : Spaced text spaced) : Reads grid spaced e := by
  obtain ⟨items, hspelled, hderives⟩ := h
  obtain ⟨items', hspelled', hitems⟩ := hspelled.spaced hspaced
  exact ⟨items', hspelled', hderives.spaced hitems⟩

/-! ### Rows of words that are expressions -/

/-- Spelled items are a row of words when the arguments of their calls are. -/
theorem Spells.between {items : List Item} {text behind : List Char} (h : Spells items text behind)
    (hcalls : ∀ name arguments, .call name arguments ∈ items → Between arguments []) :
    Between text behind := by
  induction h with
  | nil => exact .nil
  | token hblanks hword _ _ ih =>
    have hrest := ih fun name arguments hmem => hcalls name arguments (.tail _ hmem)
    exact .append (Lexeme.between_of_allBlank hblanks _) (.cons (.word hword) hrest)
  | @call _ source gap arguments rest behind name _ hblanks hgap hword _ _ ih =>
    have hrest := ih fun name arguments hmem => hcalls name arguments (.tail _ hmem)
    have hopens : Lexeme.IsMark '(' .roundOpen := by decide
    have hcloses : Lexeme.IsMark ')' .roundClose := by decide
    have hclosing : Between ([')'] ++ rest) behind :=
      .cons (Lexeme.part_mark hcloses _) hrest
    have harguments : Between arguments ([')'] ++ rest ++ behind) :=
      (hcalls name arguments (.head _)).ends (by
        rintro _ ⟨⟩
        rfl)
    have hopening : Between (['('] ++ (arguments ++ ([')'] ++ rest))) behind :=
      .cons (Lexeme.part_mark hopens _) (.append harguments hclosing)
    have hcall : Between (gap ++ (['('] ++ (arguments ++ ([')'] ++ rest)))) behind :=
      .append (Lexeme.between_of_allBlank hgap _) hopening
    have hname : Between (source ++ (gap ++ (['('] ++ (arguments ++ ([')'] ++ rest))))) behind :=
      .cons (.word (by simpa using hword)) hcall
    exact .append (Lexeme.between_of_allBlank hblanks _) hname

theorem Spelled.between {items : List Item} {text : List Char} (h : Spelled text items)
    (hcalls : ∀ name arguments, .call name arguments ∈ items → Between arguments []) :
    Between text [] := by
  obtain ⟨spelling, blanks, rfl, hblanks, hspells⟩ := h
  rw [← List.append_nil blanks] at hspells
  exact .append (hspells.between hcalls) (Lexeme.between_of_allBlank hblanks [])

/-- A text is a row of words when the pieces of its **full split** are. -/
theorem between_of_fullSplit {text : List Char}
    (h : ∀ piece ∈ (ArgTree.fullSplit text).expressions, Between piece []) : Between text [] := by
  refine ArgTree.of_fullSplit (fun hblanks => Lexeme.between_of_allBlank hblanks [])
    (fun hpadded htext => ?_) (fun hsep hfirst hsecond => ?_) h
  · obtain ⟨before, behind, hbefore, hbehind, rfl⟩ := hpadded
    have hblanks := Lexeme.between_of_allBlank hbehind []
    rw [List.append_assoc]
    exact .append (Lexeme.between_of_allBlank hbefore _)
      (.append (htext.meets (meets_of_allBlank (by simpa using hbehind) [])) hblanks)
  · obtain ⟨hpart, hend⟩ := Lexeme.part_separator hsep _
    refine .append (hfirst.ends ?_) (.cons hpart hsecond)
    rintro _ ⟨⟩
    exact hend

theorem between_of_pieces {arguments : List Char} {pieces : ArgTree Piece}
    (htext : pieces.map Piece.text = ArgTree.fullSplit arguments)
    (hspelled : ∀ piece ∈ pieces.expressions, Spelled piece.text piece.items)
    (hcalls : ∀ piece ∈ pieces.expressions, ∀ name arguments,
      .call name arguments ∈ piece.items → Between arguments []) : Between arguments [] := by
  refine between_of_fullSplit fun text hmem => ?_
  rw [← htext, ArgTree.expressions_map] at hmem
  obtain ⟨piece, hpiece, rfl⟩ := List.mem_map.1 hmem
  exact (hspelled piece hpiece).between (hcalls piece hpiece)

/-- The arguments of all calls in a phrase are **rows of words**. -/
theorem Derives.between {grid : Grid} {category : Category} {items : List Item} {e : Expr}
    (h : Derives grid category items e) (name : String) (arguments : List Char)
    (hcall : .call name arguments ∈ items) : Between arguments [] := by
  induction h generalizing name arguments with
  | number | text | field | hash | name | empty => simp at hcall
  | paren _ ih | sequence _ ih => exact ih name arguments (by simpa using hcall)
  | call htext hspelled _ ih =>
    obtain ⟨rfl, rfl⟩ : name = _ ∧ arguments = _ := by simpa using hcall
    exact between_of_pieces htext hspelled ih
  | ofAtom _ ih | ofTarget _ ih | ofOperand _ ih | ofTighter _ ih | element _ ih =>
    exact ih name arguments hcall
  | member _ ih | unary _ ih => exact ih name arguments (by simpa using hcall)
  | memberCall _ htext hspelled _ ih ihpieces =>
    rw [List.mem_append] at hcall
    rcases hcall with hcall | hcall
    · exact ih name arguments hcall
    · obtain ⟨rfl, rfl⟩ : name = _ ∧ arguments = _ := by simpa using hcall
      exact between_of_pieces htext hspelled ihpieces
  | binary _ _ ihfirst ihsecond | elements _ _ ihfirst ihsecond =>
    rw [List.mem_append, List.mem_cons] at hcall
    rcases hcall with hcall | hcall | hcall
    · exact ihfirst name arguments hcall
    · cases hcall
    · exact ihsecond name arguments hcall

/-- A text that reads as an expression is a **row of words**. -/
theorem Reads.between {grid : Grid} {text : List Char} {e : Expr} (h : Reads grid text e) :
    Between text [] := by
  obtain ⟨items, hspelled, hderives⟩ := h
  exact hspelled.between hderives.between

namespace Expr

/-- **Blanks between words do not matter.** -/
theorem compile_spaced {env : Env} {options : Options} {before after blanks : List Char} {e : Expr}
    (hexpand : options.expandTemplates = false) (h : compile env options (before ++ after) = .ok e)
    (hpoint : ¬InsideWord before after) (hblanks : allBlank blanks = true) :
    compile env options (before ++ (blanks ++ after)) = .ok e := by
  obtain ⟨r, hreads, hnesting, rfl⟩ := (compile_eq_ok_iff hexpand).1 h
  have hsplit := Between.split hreads.between
  rw [List.append_nil] at hsplit
  have hbetween := hsplit.resolve_right hpoint
  have hspaced : Spaced (before ++ after) (before ++ (blanks ++ after)) :=
    ⟨before, blanks, after, rfl, rfl, hblanks, hbetween⟩
  exact (compile_eq_ok_iff hexpand).2 ⟨r, hreads.spaced hspaced, hnesting, rfl⟩

/-- In `f(a,,'b')` a space without a break and a line feed may stand in the empty slot. -/
theorem compile_spaced_omitted_argument :
    ¬InsideWord ['f', '(', 'a', ','] [',', '\'', 'b', '\'', ')'] ∧
    compile ⟨⟨9, 9⟩, .empty⟩ {} ['f', '(', 'a', ',', '\u00a0', '\n', ',', '\'', 'b', '\'', ')'] =
      .ok (.call "f" (.group .comma [.leaf (.name "a"), .omitted, .leaf (.field "b")])) := by
  have hbetween : Between (['f'] ++ (['('] ++ (['a'] ++ ([','] ++ []))))
      [',', '\'', 'b', '\'', ')'] :=
    .cons (.word ⟨'f', [], rfl, by decide, rfl⟩) <|
    .cons (.word ⟨'(', [], rfl, by decide, rfl⟩) <|
    .cons (.word ⟨'a', [], rfl, by decide, rfl⟩) <|
    .cons (.word ⟨',', [], rfl, by decide, rfl⟩) .nil
  have hcompile : compile ⟨⟨9, 9⟩, .empty⟩ {}
      (['f', '(', 'a', ','] ++ (['\u00a0', '\n'] ++ [',', '\'', 'b', '\'', ')'])) =
        .ok (.call "f" (.group .comma [.leaf (.name "a"), .omitted, .leaf (.field "b")])) :=
    compile_spaced rfl (by cbv) hbetween.not_insideWord (by decide)
  exact ⟨hbetween.not_insideWord, hcompile⟩

end Expr

end GridFormula
