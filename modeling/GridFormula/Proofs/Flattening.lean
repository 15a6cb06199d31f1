import GridFormula.Proofs.Items
import GridFormula.Proofs.Joining

/-!
# Flattened arguments

A tree that was read is flattened to its leaves. The tree was built level by level: a text is
scanned for one separator, its pieces are trimmed, and each is scanned again from the top for the
next one. One scan of the whole text finds the same parts. Behind a separator at the top the scan is
at the top again, so what it does inside a piece is what a scan of that piece alone does, and the
separators of all levels can be looked for at once.

Each part gives one entry, in order. A blank part gives an entry without an expression, at whatever
level the argument was left out, so there is always one entry more than there are separators at the
top.

## Main definitions

* `ArgTree.addLeaves`: the leaves of a tree, added behind those that are held.
* `Scan.SeparatesAt`: where separators of any level stand at the top.
* `Scan.partsBetween`: a text cut at some positions.

## Main results

* `ArgTree.addLeaves_eq_append`: adding leaves changes nothing in front of them.
* `ArgTree.leaves_fullSplit`: the leaves of the full split by one scan of the text.
* `ArgTree.addLeaves_of_parseAt`: what is added for a tree that was read.
-/

namespace GridFormula

open Text (allBlank)

/-! ### Adding leaves -/

namespace ArgTree

variable {ε : Type}

mutual

/-- The leaves of a tree **added** behind those that are held, with `none` for an omitted slot. -/
def addLeaves : ArgTree ε → List (Option ε) → List (Option ε)
  | .omitted, held => held ++ [none]
  | .leaf e, held => held ++ [some e]
  | .group _ slots, held => addSlotsLeaves slots held

/-- The leaves of a row of slots added behind those that are held. -/
def addSlotsLeaves : List (ArgTree ε) → List (Option ε) → List (Option ε)
  | [], held => held
  | slot :: others, held => addSlotsLeaves others (addLeaves slot held)

end

/-- The leaves of a tree are added **behind** those that are held, which stay as they are. -/
theorem addLeaves_eq_append (tree : ArgTree ε) (held : List (Option ε)) :
    addLeaves tree held = held ++ tree.leaves := by
  induction tree generalizing held with
  | omitted => rfl
  | leaf e => rfl
  | group level slots ih =>
    rw [addLeaves, leaves]
    induction slots generalizing held with
    | nil => exact (List.append_nil held).symm
    | cons slot others ihothers =>
      rw [addSlotsLeaves, slotsLeaves, ih slot (by simp),
        ihothers (fun slot hslot => ih slot (by simp [hslot])), List.append_assoc]

end ArgTree

namespace Scan

/-! ### Cutting at positions -/

/-- The characters of a text from one position up to another. -/
def between (text : List Char) (start stop : Nat) : List Char :=
  (text.take stop).drop start

/-- The **parts** of a text between some positions, which are in order. The character at a position
belongs to no part. -/
def partsBetween (text : List Char) (positions : List Nat) : List (List Char) :=
  List.zipWith (between text) (0 :: positions.map (· + 1)) (positions ++ [text.length])

theorem length_partsBetween (text : List Char) (positions : List Nat) :
    (partsBetween text positions).length = positions.length + 1 := by
  simp [partsBetween]

/-- Behind its first character a text has the same parts, one position further. -/
theorem zipWith_between_cons (c : Char) (rest : List Char) (starts stops : List Nat) :
    List.zipWith (between (c :: rest)) (starts.map (· + 1)) (stops.map (· + 1)) =
      List.zipWith (between rest) starts stops := by
  rw [List.zipWith_map]
  rfl

theorem map_succ_append_length (c : Char) (rest : List Char) (positions : List Nat) :
    positions.map (· + 1) ++ [(c :: rest).length] =
      (positions ++ [rest.length]).map (· + 1) := by
  simp

/-- A first character that does not cut belongs to the first part. -/
theorem partsBetween_cons (c : Char) (rest : List Char) (positions : List Nat) :
    partsBetween (c :: rest) (positions.map (· + 1)) =
      (partsBetween rest positions).modifyHead (c :: ·) := by
  obtain ⟨stop, stops, hstops⟩ := List.exists_cons_of_ne_nil
    (List.append_ne_nil_of_right_ne_nil positions (List.cons_ne_nil rest.length []))
  rw [partsBetween, partsBetween, map_succ_append_length, hstops, List.map_cons,
    List.zipWith_cons_cons, zipWith_between_cons]
  rfl

/-- A first character that cuts has an empty part in front. -/
theorem partsBetween_cons_zero (c : Char) (rest : List Char) (positions : List Nat) :
    partsBetween (c :: rest) (0 :: positions.map (· + 1)) = [] :: partsBetween rest positions := by
  rw [partsBetween, List.cons_append, map_succ_append_length, List.zipWith_cons_cons]
  exact congrArg (List.cons []) (zipWith_between_cons c rest (0 :: positions.map (· + 1)) _)

/-! ### Parts and positions of one scan -/

/-- The parts of a text, the scan of which begins in state `s`, between the characters at its top
that **cut** it. -/
def partsFrom (cuts : Char → Bool) (s : State) : List Char → List (List Char)
  | [] => [[]]
  | c :: rest =>
    if s.isTop && cuts c then [] :: partsFrom cuts (s.step c) rest
    else (partsFrom cuts (s.step c) rest).modifyHead (c :: ·)

/-- The positions of the characters that cut a text, the scan of which begins in state `s`. -/
def positionsFrom (cuts : Char → Bool) (s : State) (text : List Char) : List Nat :=
  (List.range text.length).filter fun position =>
    (s.run (text.take position)).isTop && text[position]?.any cuts

theorem positionsFrom_cons (cuts : Char → Bool) (s : State) (c : Char) (rest : List Char) :
    positionsFrom cuts s (c :: rest) =
      (if s.isTop && cuts c then [0] else []) ++
        (positionsFrom cuts (s.step c) rest).map (· + 1) := by
  rw [positionsFrom, List.length_cons, List.range_succ_eq_map, List.filter_cons, List.filter_map]
  by_cases hcut : (s.isTop && cuts c) = true
  · rw [if_pos (by simpa using hcut), if_pos hcut]
    rfl
  · rw [if_neg (by simpa using hcut), if_neg hcut]
    rfl

/-- The parts of a scan are what it **cuts at its positions**. -/
theorem partsBetween_positionsFrom (cuts : Char → Bool) (s : State) (text : List Char) :
    partsBetween text (positionsFrom cuts s text) = partsFrom cuts s text := by
  induction text generalizing s with
  | nil => rfl
  | cons c rest ih =>
    rw [positionsFrom_cons, partsFrom]
    split
    · rw [List.singleton_append, partsBetween_cons_zero, ih]
    · rw [List.nil_append, partsBetween_cons, ih]

theorem partsFrom_ne_nil (cuts : Char → Bool) (s : State) (text : List Char) :
    partsFrom cuts s text ≠ [] := by
  induction text generalizing s with
  | nil => exact List.cons_ne_nil _ _
  | cons c rest ih =>
    rw [partsFrom]
    split
    · exact List.cons_ne_nil _ _
    · simpa using ih (s.step c)

/-- A text that nothing cuts is one part. -/
theorem partsFrom_of_no_cut (s : State) (text : List Char) :
    partsFrom (fun _ => false) s text = [text] := by
  induction text generalizing s with
  | nil => rfl
  | cons c rest ih => simp [partsFrom, ih]

/-- To cut at one separator and then each piece at others is to **cut at all of them** in one scan.
-/
theorem partsFrom_or {sep : Char} {cuts : Char → Bool} (hsep : isPlain sep = true)
    (s : State) (text : List Char) :
    partsFrom (fun c => c = sep || cuts c) s text =
      partsFrom cuts s (piecesFrom sep s text).1 ++
        (piecesFrom sep s text).2.flatMap (partsFrom cuts .top) := by
  induction text generalizing s with
  | nil => rfl
  | cons c rest ih =>
    rw [partsFrom, piecesFrom, ih]
    by_cases hpiece : (s.isTop && decide (c = sep)) = true
    · obtain ⟨htop, rfl⟩ : s.isTop = true ∧ c = sep := by simpa using hpiece
      obtain rfl := (State.isTop_iff s).1 htop
      -- behind the separator the scan is at the top, as it is in front of the next piece
      have hstep : State.top.step c = .top := State.step_of_isPlain hsep none
      rw [if_pos (by simp), if_pos hpiece, hstep]
      rfl
    rw [if_neg hpiece]
    by_cases hcut : (s.isTop && cuts c) = true
    · obtain ⟨htop, -⟩ : s.isTop = true ∧ cuts c = true := by simpa using hcut
      rw [if_pos (by simp_all), partsFrom, if_pos hcut]
      rfl
    · obtain ⟨first, others, hparts⟩ := List.exists_cons_of_ne_nil
        (partsFrom_ne_nil cuts (s.step c) (piecesFrom sep (s.step c) rest).1)
      rw [if_neg (by simp_all), partsFrom, if_neg hcut, hparts]
      rfl

/-! ### Separators of all levels -/

/-- A separator of some level **separates** a text at a position: nothing but items stands before
it. -/
def SeparatesAt (text : List Char) (position : Nat) : Prop :=
  ∃ (items : List (List Char)) (sep : Char) (behind : List Char),
    text = items.flatten ++ sep :: behind ∧ (∀ item ∈ items, IsItem item) ∧
    Lexeme.isSeparator sep = true ∧ position = items.flatten.length

/-- The positions where separators of all levels stand at the top. -/
def separators (text : List Char) : List Nat :=
  positionsFrom Lexeme.isSeparator .top text

theorem pairwise_separators (text : List Char) : (separators text).Pairwise (· < ·) :=
  List.pairwise_lt_range.filter _

theorem mem_separators_iff {text : List Char} {position : Nat} :
    position ∈ separators text ↔ SeparatesAt text position := by
  rw [separators, positionsFrom, List.mem_filter, List.mem_range, Bool.and_eq_true, State.isTop_iff]
  constructor
  · rintro ⟨hlength, hrun, hsep⟩
    obtain ⟨items, hitems, hall⟩ := complete_iff_exists_items.1 hrun
    rw [List.getElem?_eq_getElem hlength, Option.any_some] at hsep
    refine ⟨items, text[position], text.drop (position + 1), ?_, hall, hsep, ?_⟩
    · rw [← hitems, ← List.drop_eq_getElem_cons hlength, List.take_append_drop]
    · rw [← hitems, List.length_take_of_le hlength.le]
  · rintro ⟨items, sep, behind, rfl, hall, hsep, rfl⟩
    have hcomplete : State.top.run items.flatten = .top :=
      complete_iff_exists_items.2 ⟨items, rfl, hall⟩
    simpa [hsep] using hcomplete

end Scan

namespace ArgTree

open Scan (partsFrom partsBetween separators)

/-! ### Leaves of the full split -/

/-- A way to split texts finds the **parts** of one scan when its leaves are those, in order. -/
def FindsParts (cuts : Char → Bool) (split : List Char → ArgTree (List Char)) : Prop :=
  ∀ text, (split text).leaves = (partsFrom cuts .top text).map some

theorem findsParts_leaf : FindsParts (fun _ => false) .leaf := by
  intro text
  rw [Scan.partsFrom_of_no_cut]
  rfl

/-- Cutting at one more separator finds the parts between the separators **of both kinds**. -/
theorem FindsParts.cut {cuts : Char → Bool} {inner : List Char → ArgTree (List Char)}
    (hinner : FindsParts cuts inner) (level : Level) {sep : Char} (hsep : isPlain sep = true) :
    FindsParts (fun c => c = sep || cuts c) (cut level sep inner) := by
  intro text
  have hparts : ∀ pieces : List (List Char),
      pieces.flatMap (fun piece => (inner piece).leaves) =
        (pieces.flatMap (partsFrom cuts .top)).map some := by
    intro pieces
    rw [List.map_flatMap]
    exact congrArg pieces.flatMap (funext hinner)
  rw [ArgTree.cut, leaves_collapse, List.flatMap_map, hparts, Scan.partsFrom_or hsep]
  rfl

/-- The leaves of the raw split are the **parts between all separators**, found in one scan. -/
theorem leaves_rawSplit (text : List Char) :
    (rawSplit text).leaves = (partsBetween text (separators text)).map some := by
  have hcuts : (fun c => decide (c = ';') || (decide (c = ',') || (decide (c = ':') || false))) =
      Lexeme.isSeparator := by
    funext c
    simp [Lexeme.isSeparator, Bool.or_assoc]
  rw [separators, Scan.partsBetween_positionsFrom, ← hcuts]
  exact ((findsParts_leaf.cut .colon rfl).cut .comma rfl).cut .semicolon rfl text

/-- The leaves of the full split are those parts **trimmed**, and blank ones left out. -/
theorem leaves_fullSplit (text : List Char) :
    (fullSplit text).leaves = (partsBetween text (separators text)).map trimmedLeaf := by
  rw [← trimmed_rawSplit, leaves_trimmed, leaves_rawSplit, List.map_map]
  rfl

theorem fullSplit_trim (text : List Char) : fullSplit (Text.trim text) = fullSplit text :=
  ((((fits_innermost.cut .colon rfl rfl).cut .comma rfl rfl).cut .semicolon rfl rfl).padded
    (Text.padded_trim text)).symm

/-- The full split of a text that is not blank is **not left out**. -/
theorem isOmitted_fullSplit {text : List Char} (h : allBlank text = false) :
    (fullSplit text).isOmitted = false := by
  cases hsplit : fullSplit text with
  | omitted =>
    have hinnermost := innermost_eq_of_fullSplit rfl hsplit
    rw [innermost_of_not_blank h] at hinnermost
    cases hinnermost
  | leaf => rfl
  | group => rfl

theorem isOmitted_of_traverse {ε φ : Type} {f : ε → Except Error φ} {tree : ArgTree ε}
    {tree' : ArgTree φ} (h : traverse f tree = .ok tree') : tree'.isOmitted = tree.isOmitted := by
  cases tree with
  | omitted =>
    cases h
    rfl
  | leaf e =>
    obtain ⟨v, -, rfl⟩ := traverse_leaf_eq_ok_iff.1 h
    rfl
  | group level slots =>
    obtain ⟨slots', -, rfl⟩ := traverse_group_eq_ok_iff.1 h
    rfl

/-! ### Reading -/

variable {ε κ : Type} [Leaf ε κ]

/-- **A tree that was read has one leaf for every part of its text.** The trimmed text is cut where
separators of any level stand at the top. A blank part is an omitted argument and any other is
compiled once it is trimmed, in order, and nothing that is held is changed. -/
theorem addLeaves_of_parseAt {env : Env} {options : Options} {depth : Nat} {text : List Char}
    (hblank : allBlank text = false) {tree : ArgTree ε}
    (hparse : parseAt env options depth text = .ok tree) :
    tree.isOmitted = false ∧ ∃ positions entries,
      positions.Pairwise (· < ·) ∧
      (∀ position, position ∈ positions ↔ Scan.SeparatesAt (Text.trim text) position) ∧
      List.Forall₂ (Option.Rel fun leaf e => Leaf.compile env options depth leaf = .ok e)
        ((partsBetween (Text.trim text) positions).map trimmedLeaf) entries ∧
      entries.length = positions.length + 1 ∧
      ∀ held, addLeaves tree held = held ++ entries := by
  have htraverse := ofText_eq_ok_iff.1 hparse
  have hentries := forall₂_leaves_of_traverse htraverse
  rw [← fullSplit_trim, leaves_fullSplit] at hentries
  refine ⟨?_, separators (Text.trim text), tree.leaves, Scan.pairwise_separators _,
    fun _ => Scan.mem_separators_iff, hentries, ?_, addLeaves_eq_append tree⟩
  · rw [isOmitted_of_traverse htraverse, isOmitted_fullSplit hblank]
  · rw [← hentries.length_eq, List.length_map, Scan.length_partsBetween]

/-- In ` a:b,c:;'x,y'` there are separators of all levels, one of which is in a quotation. The slot
that is left out behind `c:` is an entry of its own, so five are added for four separators. -/
theorem addLeaves_of_three_levels :
    ∃ tree : ArgTree Verbatim,
      parseAt ⟨⟨9, 9⟩, .empty⟩ {} 0
        [' ', 'a', ':', 'b', ',', 'c', ':', ';', '\'', 'x', ',', 'y', '\''] = .ok tree ∧
      addLeaves tree [none] =
        [none, some ⟨['a']⟩, some ⟨['b']⟩, some ⟨['c']⟩, none,
          some ⟨['\'', 'x', ',', 'y', '\'']⟩] ∧
      ∃ positions : List Nat, positions.length = 4 ∧ ∀ position, position ∈ positions ↔
        Scan.SeparatesAt ['a', ':', 'b', ',', 'c', ':', ';', '\'', 'x', ',', 'y', '\''] position := by
  have hparse : parseAt ⟨⟨9, 9⟩, .empty⟩ {} 0
      [' ', 'a', ':', 'b', ',', 'c', ':', ';', '\'', 'x', ',', 'y', '\''] =
        (.ok (.group .semicolon [
          .group .comma [.group .colon [.leaf ⟨['a']⟩, .leaf ⟨['b']⟩],
            .group .colon [.leaf ⟨['c']⟩, .omitted]],
          .leaf ⟨['\'', 'x', ',', 'y', '\'']⟩]) : Except Error (ArgTree Verbatim)) := rfl
  refine ⟨_, hparse, rfl, ?_⟩
  obtain ⟨-, positions, entries, -, hpositions, -, hlength, hadd⟩ := addLeaves_of_parseAt rfl hparse
  refine ⟨positions, ?_, hpositions⟩
  have hentries : [some (Verbatim.mk ['a']), some ⟨['b']⟩, some ⟨['c']⟩, none,
      some ⟨['\'', 'x', ',', 'y', '\'']⟩] = entries := hadd []
  rw [← hentries] at hlength
  exact (Nat.succ.inj hlength).symm

end ArgTree

end GridFormula
