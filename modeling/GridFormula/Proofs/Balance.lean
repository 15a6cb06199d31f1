import GridFormula.Proofs.Reading

/-!
# Balance

The scan that splits argument text and the readers of expressions look at a text in different ways.
The scan keeps track of one open group and counts the brackets of that group's kind alone; the
readers match brackets of all kinds. They agree on whatever the readers accept.

The invariant is that a phrase is *closed*: wherever the scan is outside a quotation, a phrase takes
it back to where it was, and a group that is open in front of the phrase stays open all along. It
holds of words, of blanks, of rows of closed texts and of closed texts between brackets of either
kind, and so of every phrase. The arguments of a call are closed because the pieces are, which are
formulas of their own.

## Main definitions

* `Scan.Closed`: texts that leave the scan where it was.
* `Scan.Undivided`: texts without separators at the top.

## Main results

* `closed_of_derives`: a phrase is closed, and unless it is a row of expressions it is undivided.
* `Expr.compile_eq_ok_iff_parseWith`: a text is one expression exactly when it is an argument tree
  of one leaf.
-/

namespace GridFormula

open Text (isBlank allBlank)

namespace Scan

/-! ### Closed texts -/

/-- A text is **closed** when outside quotations it leaves the scan where it was, without leaving
an open group on the way. -/
structure Closed (text : List Char) : Prop where
  /-- The scan is behind the text where it was in front of it. -/
  run_eq : ∀ group, State.run ⟨group, none, false⟩ text = ⟨group, none, false⟩
  /-- A group that is open in front of the text is not closed by it. -/
  splitAtTop_eq : ∀ g, splitAtTop ⟨some g, none, false⟩ text = none

/-- A text is **undivided** when no separator stands at its top. -/
def Undivided (text : List Char) : Prop :=
  ∀ ⦃level : Level⦄ ⦃sep : Char⦄, level.separator? = some sep → hasSeparator sep text = false

theorem splitAtTop_append_of_none {s : State} {first : List Char} (h : splitAtTop s first = none)
    (second : List Char) :
    splitAtTop s (first ++ second) =
      (splitAtTop (s.run first) second).map fun (before, behind) => (first ++ before, behind) := by
  induction first generalizing s with
  | nil => simp
  | cons c rest ih =>
    obtain ⟨htop, h⟩ := splitAtTop_cons_eq_none_iff.1 h
    rw [List.cons_append, splitAtTop_cons rfl htop, ih h, State.run_cons, Option.map_map]
    rfl

theorem hasSeparatorFrom_append (sep : Char) (s : State) (first second : List Char) :
    hasSeparatorFrom sep s (first ++ second) =
      (hasSeparatorFrom sep s first || hasSeparatorFrom sep (s.run first) second) := by
  induction first generalizing s with
  | nil => rfl
  | cons c rest ih => simp [hasSeparatorFrom, ih, Bool.or_assoc]

/-- Where the scan does not reach the top, nothing separates. -/
theorem hasSeparatorFrom_of_splitAtTop {s : State} (hs : s.isTop = false) {text : List Char}
    (h : splitAtTop s text = none) (sep : Char) : hasSeparatorFrom sep s text = false := by
  induction text generalizing s with
  | nil => rfl
  | cons c rest ih =>
    obtain ⟨htop, h⟩ := splitAtTop_cons_eq_none_iff.1 h
    rw [hasSeparatorFrom, hs, ih htop h]
    rfl

/-- A character that is not in the text does not separate it. -/
theorem hasSeparatorFrom_of_notMem {sep : Char} {text : List Char} (h : sep ∉ text) (s : State) :
    hasSeparatorFrom sep s text = false := by
  induction text generalizing s with
  | nil => rfl
  | cons c rest ih =>
    rw [List.mem_cons, not_or] at h
    simp [hasSeparatorFrom, Ne.symm h.1, ih h.2]

theorem closed_nil : Closed [] := ⟨fun _ => rfl, fun _ => rfl⟩

theorem undivided_nil : Undivided [] := fun _ _ _ => rfl

theorem Closed.append {first second : List Char} (hfirst : Closed first)
    (hsecond : Closed second) : Closed (first ++ second) where
  run_eq group := by rw [State.run_append, hfirst.run_eq, hsecond.run_eq]
  splitAtTop_eq g := by
    rw [splitAtTop_append_of_none (hfirst.splitAtTop_eq g), hfirst.run_eq, hsecond.splitAtTop_eq]
    rfl

theorem Undivided.append {first second : List Char} (hclosed : Closed first)
    (hfirst : Undivided first) (hsecond : Undivided second) : Undivided (first ++ second) := by
  intro level sep hsep
  have hrun : State.top.run first = .top := hclosed.run_eq none
  rw [hasSeparator, hasSeparatorFrom_append, hrun]
  exact Bool.or_eq_false_iff.2 ⟨hfirst hsep, hsecond hsep⟩

/-- Plain characters are closed. -/
theorem closed_of_isPlain {text : List Char} (h : ∀ c ∈ text, isPlain c = true) :
    Closed text := by
  induction text with
  | nil => exact closed_nil
  | cons c rest ih =>
    obtain ⟨hc, hrest⟩ := List.forall_mem_cons.1 h
    refine ⟨fun group => ?_, fun g => ?_⟩
    · rw [State.run_cons, State.step_of_isPlain hc, (ih hrest).run_eq]
    · rw [splitAtTop, State.step_of_isPlain hc, (ih hrest).splitAtTop_eq]
      rfl

theorem closed_of_allBlank {blanks : List Char} (h : allBlank blanks = true) : Closed blanks :=
  closed_of_isPlain fun c hc => isPlain_of_isBlank (List.all_eq_true.1 h c hc)

theorem isBlank_of_separator? {level : Level} {sep : Char} (h : level.separator? = some sep) :
    isBlank sep = false := by
  cases level <;> cases h <;> rfl

theorem undivided_of_allBlank {blanks : List Char} (h : allBlank blanks = true) :
    Undivided blanks :=
  fun _ _ hsep => hasSeparatorFrom_of_allBlank (isBlank_of_separator? hsep) h .top

/-- Inside and outside of groups, a bracket opens a state that its partner closes. -/
theorem exists_step_opener (bracket : Bracket) (group : Option Group) :
    ∃ g, State.step ⟨group, none, false⟩ bracket.opener = ⟨some g, none, false⟩ ∧
      State.step ⟨some g, none, false⟩ bracket.closer = ⟨group, none, false⟩ := by
  have hsame : ∀ n, ∃ g, State.step ⟨some ⟨bracket, n⟩, none, false⟩ bracket.opener =
      ⟨some g, none, false⟩ ∧
        State.step ⟨some g, none, false⟩ bracket.closer = ⟨some ⟨bracket, n⟩, none, false⟩ := by
    intro n
    refine ⟨⟨bracket, n + 1⟩, ?_⟩
    cases bracket <;> simp [State.step, State.stepGroup, isQuote, Bracket.opener, Bracket.closer]
  cases group with
  | none =>
    refine ⟨⟨bracket, 0⟩, ?_⟩
    cases bracket <;>
      simp [State.step, State.stepGroup, Bracket.ofOpener?, isQuote, Bracket.opener, Bracket.closer]
  | some group =>
    obtain ⟨other, n⟩ := group
    by_cases h : other = bracket
    · subst h
      exact hsame n
    · refine ⟨⟨other, n⟩, ?_⟩
      cases bracket <;> cases other <;>
        simp_all [State.step, State.stepGroup, isQuote, Bracket.opener, Bracket.closer]

/-- A closed text **between brackets** is closed. -/
theorem Closed.group {text : List Char} (h : Closed text) (bracket : Bracket) :
    Closed (bracket.opener :: (text ++ [bracket.closer])) := by
  refine ⟨fun group => ?_, fun g => ?_⟩
  · obtain ⟨g, hopen, hclose⟩ := exists_step_opener bracket group
    rw [State.run_cons, hopen, State.run_append, h.run_eq, State.run_cons, hclose, State.run_nil]
  · obtain ⟨g', hopen, hclose⟩ := exists_step_opener bracket (some g)
    rw [splitAtTop, hopen, splitAtTop_append_of_none (h.splitAtTop_eq g'), h.run_eq, splitAtTop,
      hclose]
    rfl

theorem ne_of_separator? {level : Level} {sep : Char} (h : level.separator? = some sep)
    (bracket : Bracket) : bracket.opener ≠ sep ∧ bracket.closer ≠ sep := by
  cases level <;> cases h <;> cases bracket <;> decide

/-- Between brackets nothing separates. -/
theorem Closed.undivided_group {text : List Char} (h : Closed text) (bracket : Bracket) :
    Undivided (bracket.opener :: (text ++ [bracket.closer])) := by
  intro level sep hsep
  obtain ⟨hopener, hcloser⟩ := ne_of_separator? hsep bracket
  obtain ⟨g, hopen, hclose⟩ := exists_step_opener bracket none
  have hinside := hasSeparatorFrom_of_splitAtTop rfl (h.splitAtTop_eq g) sep
  rw [hasSeparator, hasSeparatorFrom, State.top, hopen, hasSeparatorFrom_append, hinside,
    h.run_eq, hasSeparatorFrom, hasSeparatorFrom]
  simp [hopener, hcloser]

end Scan

/-! ### Words -/

namespace Lexeme

open Scan (Closed Undivided)

/-- Whether `c` separates argument text at some level. -/
def isSeparator (c : Char) : Bool := c = ';' || c = ',' || c = ':'

theorem isPlain_of_isSeparator {c : Char} (h : isSeparator c = true) : isPlain c = true := by
  simp only [isSeparator, Bool.or_eq_true, decide_eq_true_eq] at h
  rcases h with (rfl | rfl) | rfl <;> decide

theorem isSeparator_of_separator? {level : Level} {sep : Char}
    (h : level.separator? = some sep) : isSeparator sep = true := by
  cases level <;> cases h <;> rfl

theorem isPlain_of_isWordPart {c : Char} (h : isWordPart c = true) :
    isPlain c = true ∧ isSeparator c = false := by
  by_contra hnot
  have hspecial : c = '\\' ∨ c = '"' ∨ c = '\'' ∨ c = '(' ∨ c = ')' ∨ c = '[' ∨ c = ']' ∨
      c = '\x7b' ∨ c = '\x7d' ∨ c = ';' ∨ c = ',' ∨ c = ':' := by
    simp only [isPlain, isQuote, isBracket, isSeparator, Bool.and_eq_true, Bool.not_eq_true',
      Bool.or_eq_false_iff, decide_eq_true_eq, decide_eq_false_iff_not] at hnot
    tauto
  rcases hspecial with rfl | rfl | rfl | rfl | rfl | rfl | rfl | rfl | rfl | rfl | rfl | rfl <;>
    exact absurd h (by decide)

theorem closed_of_isWordPart {text : List Char} (h : ∀ c ∈ text, isWordPart c = true) :
    Closed text ∧ Undivided text := by
  refine ⟨Scan.closed_of_isPlain fun c hc => (isPlain_of_isWordPart (h c hc)).1, ?_⟩
  intro level sep hsep
  refine Scan.hasSeparatorFrom_of_notMem (fun hmem => ?_) .top
  have hnot := (isPlain_of_isWordPart (h sep hmem)).2
  rw [isSeparator_of_separator? hsep] at hnot
  cases hnot

/-- Behind the opening mark of a quotation the scan is where it was in front of it again when the
quotation is closed, and it has hidden every separator. -/
theorem run_of_closed {mark : Char} (hmark : isQuote mark = true) {text content : List Char}
    (h : (quotation mark text).content = some content) (group : Option Scan.Group) :
    Scan.State.run ⟨group, some mark, false⟩ (quotation mark text).source =
        ⟨group, none, false⟩ ∧
      (∀ sep, Scan.hasSeparatorFrom sep ⟨group, some mark, false⟩ (quotation mark text).source =
        false) ∧
      (group ≠ none → Scan.splitAtTop ⟨group, some mark, false⟩ (quotation mark text).source =
        none) := by
  have hslash : mark ≠ '\\' := by
    rintro rfl
    cases hmark
  -- the mark closes the quotation for the scan as well
  have hclose : Scan.State.run ⟨group, some mark, false⟩ [mark] = ⟨group, none, false⟩ ∧
      (∀ sep, Scan.hasSeparatorFrom sep ⟨group, some mark, false⟩ [mark] = false) ∧
      (group ≠ none → Scan.splitAtTop ⟨group, some mark, false⟩ [mark] = none) := by
    refine ⟨?_, fun sep => ?_, fun hgroup => ?_⟩
    · simp [Scan.State.step, hslash]
    · simp [Scan.hasSeparatorFrom, Scan.State.isTop]
    · cases group with
      | none => exact absurd rfl hgroup
      | some g => simp [Scan.splitAtTop, Scan.State.step, Scan.State.isTop, hslash]
  fun_induction quotation mark text generalizing content with
  | case1 => cases h
  | case2 => exact hclose
  | case3 => cases h
  | case4 => exact hclose
  | case5 c rest _ ih =>
    simp only [Quotation.push, Option.map_eq_some_iff] at h ⊢
    obtain ⟨content, h, rfl⟩ := h
    obtain ⟨hrun, hsep, hsplit⟩ := ih h
    have hescape : (Scan.State.step ⟨group, some mark, false⟩ '\\').step c =
        ⟨group, some mark, false⟩ := by
      simp [Scan.State.step]
    refine ⟨?_, fun sep => ?_, fun hgroup => ?_⟩
    · simpa [hescape] using hrun
    · simpa [Scan.hasSeparatorFrom, Scan.State.isTop, Scan.State.step] using hsep sep
    · have hinner := hsplit hgroup
      simpa [Scan.splitAtTop, Scan.State.isTop, Scan.State.step] using hinner
  | case6 c d rest hc hslash' ih =>
    simp only [Quotation.push, Option.map_eq_some_iff] at h ⊢
    obtain ⟨content, h, rfl⟩ := h
    obtain ⟨hrun, hsep, hsplit⟩ := ih h
    have hstep : Scan.State.step ⟨group, some mark, false⟩ c = ⟨group, some mark, false⟩ := by
      simp [Scan.State.step, hc, hslash']
    refine ⟨?_, fun sep => ?_, fun hgroup => ?_⟩
    · simpa [hstep] using hrun
    · simpa [Scan.hasSeparatorFrom, Scan.State.isTop, hstep] using hsep sep
    · have hinner := hsplit hgroup
      simpa [Scan.splitAtTop, Scan.State.isTop, hstep] using hinner

theorem closed_quotation {mark : Char} (hmark : isQuote mark = true) {body content : List Char}
    (h : quotation mark body = ⟨some content, body, []⟩) :
    Closed (mark :: body) ∧ Undivided (mark :: body) := by
  have hcontent : (quotation mark body).content = some content := by rw [h]
  have hrun := run_of_closed hmark hcontent
  rw [h] at hrun
  have hstep : ∀ group, Scan.State.step ⟨group, none, false⟩ mark = ⟨group, some mark, false⟩ := by
    intro group
    have hslash : mark ≠ '\\' := by
      rintro rfl
      cases hmark
    simp [Scan.State.step, hslash, hmark]
  refine ⟨⟨fun group => ?_, fun g => ?_⟩, fun level sep hsep => ?_⟩
  · rw [Scan.State.run_cons, hstep, (hrun group).1]
  · rw [Scan.splitAtTop, hstep, (hrun (some g)).2.2 (by simp)]
    rfl
  · have hne : mark ≠ sep := by
      rintro rfl
      cases level <;> cases hsep <;> cases hmark
    rw [Scan.hasSeparator, Scan.hasSeparatorFrom, Scan.State.top, hstep, (hrun none).2.1]
    simp [hne]

/-- Whether a token is a bracket. -/
def isBracketToken (t : Token) : Bool :=
  t = .roundOpen || t = .roundClose || t = .squareOpen || t = .squareClose

/-- A word that is no bracket is **closed**, and unless it is a comma it is undivided. -/
theorem closed_of_made {source behind : List Char} {t : Token} (h : Made source t behind)
    (ht : isBracketToken t = false) : Closed source ∧ (t ≠ .comma → Undivided source) := by
  cases h with
  | sign hmem _ =>
    have hall : signs.all (fun sign => isBracketToken sign.2 || sign.1.all isPlain &&
        (sign.2 = .comma || sign.1.all fun c => !isSeparator c)) = true := by decide
    have hsign := List.all_eq_true.1 hall _ hmem
    simp only [ht, Bool.false_or, Bool.and_eq_true, Bool.or_eq_true, List.all_eq_true,
      decide_eq_true_eq, Bool.not_eq_true'] at hsign
    obtain ⟨hclosed, hundivided⟩ := hsign
    refine ⟨Scan.closed_of_isPlain hclosed, fun hcomma level sep hsep => ?_⟩
    refine Scan.hasSeparatorFrom_of_notMem (fun hmem => ?_) .top
    have hnot := (hundivided.resolve_left hcomma) sep hmem
    rw [isSeparator_of_separator? hsep] at hnot
    cases hnot
  | text hbody =>
    obtain ⟨hclosed, hundivided⟩ := closed_quotation rfl hbody
    exact ⟨hclosed, fun _ => hundivided⟩
  | field hbody =>
    obtain ⟨hclosed, hundivided⟩ := closed_quotation rfl hbody
    exact ⟨hclosed, fun _ => hundivided⟩
  | number _ hread =>
    obtain ⟨hclosed, hundivided⟩ :=
      closed_of_isWordPart fun c hc => isWordPart_of_mem_numeral hread hc
    exact ⟨hclosed, fun _ => hundivided⟩
  | @name c rest _ _ hstart hrest _ =>
    have hparts : ∀ d ∈ c :: rest, isWordPart d = true := by
      intro d hd
      rcases List.mem_cons.1 hd with rfl | hd
      · simp [isWordPart, isNamePart_of_isNameStart hstart]
      · simp [isWordPart, hrest d hd]
    obtain ⟨hclosed, hundivided⟩ := closed_of_isWordPart hparts
    exact ⟨hclosed, fun _ => hundivided⟩

/-- A bracket is written as its own character. -/
theorem source_of_bracket {source behind : List Char} {t : Token} (h : Made source t behind)
    {c : Char} (hsign : ∀ sign ∈ signs, sign.2 = t → sign.1 = [c])
    (ht : isBracketToken t = true) : source = [c] := by
  cases h with
  | sign hmem _ => exact hsign _ hmem rfl
  | text => cases ht
  | field => cases ht
  | number => cases ht
  | name => cases ht

end Lexeme

/-! ### Argument text -/

namespace ArgTree

open Scan (Closed)

theorem leaves_collapse {ε : Type} (level : Level) (parts : List (ArgTree ε)) :
    (collapse level parts).leaves = parts.flatMap leaves := by
  unfold collapse
  split
  · rw [List.flatMap_singleton]
  · rw [leaves, slotsLeaves_eq_flatMap]

theorem expressions_collapse {ε : Type} (level : Level) (parts : List (ArgTree ε)) :
    (collapse level parts).expressions = parts.flatMap expressions := by
  rw [expressions, leaves_collapse, List.filterMap_flatMap]
  rfl

/-- What holds of some texts holds of the texts with separators between them, when it goes over to
two texts with a separator between them. -/
theorem of_intercalate {P : List Char → Prop} {sep : Char} (hnil : P [])
    (hseparator : ∀ {first second}, P first → P second → P (first ++ sep :: second))
    {texts : List (List Char)} (h : ∀ text ∈ texts, P text) : P ([sep].intercalate texts) := by
  induction texts with
  | nil => exact hnil
  | cons text others ih =>
    obtain ⟨htext, hothers⟩ := List.forall_mem_cons.1 h
    cases others with
    | nil => simpa [List.intercalate] using htext
    | cons next others =>
      rw [Scan.intercalate_cons_cons]
      exact hseparator htext (ih hothers)

theorem closed_intercalate {sep : Char} (hsep : isPlain sep = true) {texts : List (List Char)}
    (h : ∀ text ∈ texts, Closed text) : Closed ([sep].intercalate texts) := by
  have hone := Scan.closed_of_isPlain (List.forall_mem_singleton.2 hsep)
  exact of_intercalate Scan.closed_nil (fun hfirst hsecond => hfirst.append (hone.append hsecond)) h

/-- What holds of the pieces of a **full split** holds of the text, when it holds of blanks and goes
over to padded texts and to texts with a separator between them. -/
theorem of_fullSplit {P : List Char → Prop}
    (hblank : ∀ {blanks}, allBlank blanks = true → P blanks)
    (hpadded : ∀ {text padded}, Text.Padded text padded → P text → P padded)
    (hseparator : ∀ {sep first second}, Lexeme.isSeparator sep = true → P first → P second →
      P (first ++ sep :: second))
    {text : List Char} (h : ∀ piece ∈ (fullSplit text).expressions, P piece) : P text := by
  have hinnermost : ∀ text, (∀ piece ∈ (innermost text).expressions, P piece) → P text := by
    intro text h
    unfold innermost at h
    split at h
    · next hallBlank => exact hblank hallBlank
    · exact hpadded (Text.padded_trim text) (h _ (by simp))
  have hcut : ∀ {level sep inner}, Lexeme.isSeparator sep = true →
      (∀ text, (∀ piece ∈ (inner text).expressions, P piece) → P text) →
        ∀ text, (∀ piece ∈ (cut level sep inner text).expressions, P piece) → P text := by
    intro level sep inner hsep hinner text h
    rw [← Scan.intercalate_pieces sep text]
    refine of_intercalate (hblank rfl) (hseparator hsep) fun part hpart =>
      hinner part fun piece hpiece => h piece ?_
    rw [cut, expressions_collapse, List.flatMap_map, List.mem_flatMap]
    exact ⟨part, hpart, hpiece⟩
  exact hcut rfl (hcut rfl (hcut rfl hinnermost)) text h

/-- A text is closed when the pieces of its **full split** are. -/
theorem closed_of_fullSplit {text : List Char}
    (h : ∀ piece ∈ (fullSplit text).expressions, Closed piece) : Closed text := by
  refine of_fullSplit Scan.closed_of_allBlank (fun hpadded htext => ?_)
    (fun hsep hfirst hsecond => ?_) h
  · obtain ⟨before, behind, hbefore, hbehind, rfl⟩ := hpadded
    exact ((Scan.closed_of_allBlank hbefore).append htext).append (Scan.closed_of_allBlank hbehind)
  · have hone := Scan.closed_of_isPlain
      (List.forall_mem_singleton.2 (Lexeme.isPlain_of_isSeparator hsep))
    exact hfirst.append (hone.append hsecond)

/-- The full split of an undivided text is the text. -/
theorem fullSplit_of_undivided {text : List Char} (h : Scan.Undivided text) :
    fullSplit text = innermost text := by
  have hsemicolon := h (rfl : Level.semicolon.separator? = some ';')
  have hcomma := h (rfl : Level.comma.separator? = some ',')
  have hcolon := h (rfl : Level.colon.separator? = some ':')
  rw [fullSplit, cut_of_no_separator _ hsemicolon, cut_of_no_separator _ hcomma,
    cut_of_no_separator _ hcolon]

/-- A full split of one piece is an outline of one piece. -/
theorem exists_of_fullSplit_eq_leaf {text piece : List Char} (h : fullSplit text = .leaf piece) :
    ∃ leaf, outline text = .leaf leaf ∧ leaf.text = piece := by
  rw [← map_text_outline] at h
  cases houtline : outline text with
  | omitted => rw [houtline] at h; cases h
  | leaf leaf =>
    rw [houtline] at h
    cases h
    exact ⟨leaf, rfl, rfl⟩
  | group => rw [houtline] at h; cases h

theorem exists_of_ofText_eq_leaf {ε : Type} {compile : List Char → Except Error ε}
    {text : List Char} {e : ε} (h : ofText compile text = .ok (.leaf e)) :
    ∃ leaf, outline text = .leaf leaf ∧ compile leaf.text = .ok e := by
  rw [ofText_eq_traverse] at h
  cases houtline : outline text with
  | omitted => rw [houtline] at h; cases h
  | leaf leaf =>
    rw [houtline, traverse, compilePiece] at h
    cases hleaf : compile leaf.text with
    | error => rw [hleaf] at h; cases h
    | ok e' =>
      rw [hleaf] at h
      cases h
      exact ⟨leaf, rfl, hleaf⟩
  | group level slots =>
    rw [houtline, traverse] at h
    cases hslots : traverseSlots (compilePiece compile) slots with
    | error => rw [hslots] at h; cases h
    | ok => rw [hslots] at h; cases h

end ArgTree

/-! ### Phrases -/

section Phrases

open Scan (Closed Undivided)

theorem exists_of_spells_token {t : Token} {items : List Item} {text behind : List Char}
    (h : Spells (.token t :: items) text behind) :
    ∃ blanks source rest, text = blanks ++ (source ++ rest) ∧ allBlank blanks = true ∧
      Lexeme.Made source t (rest ++ behind) ∧ Spells items rest behind := by
  cases h with
  | token hblanks hword _ hspells =>
    exact ⟨_, _, _, rfl, hblanks, Lexeme.made_of_word hword, hspells⟩

/-- What holds of a word in front of a row of items holds of blanks with the word and the row. -/
theorem closed_word_append {blanks source rest behind : List Char} {t : Token}
    (hblanks : allBlank blanks = true) (hmade : Lexeme.Made source t (rest ++ behind))
    (ht : Lexeme.isBracketToken t = false) (hrest : Closed rest) :
    Closed (blanks ++ (source ++ rest)) ∧
      (t ≠ .comma → Undivided rest → Undivided (blanks ++ (source ++ rest))) := by
  obtain ⟨hclosed, hundivided⟩ := Lexeme.closed_of_made hmade ht
  have hleading := Scan.closed_of_allBlank hblanks
  refine ⟨hleading.append (hclosed.append hrest), fun hcomma hrest => ?_⟩
  exact Undivided.append hleading (Scan.undivided_of_allBlank hblanks)
    (Undivided.append hclosed (hundivided hcomma) hrest)

/-- Brackets with closed text between them, behind some blanks. -/
theorem closed_group_append {blanks inner rest : List Char} (bracket : Bracket)
    (hblanks : allBlank blanks = true) (hinner : Closed inner) (hrest : Closed rest) :
    Closed (blanks ++ (bracket.opener :: (inner ++ bracket.closer :: rest))) ∧
      (Undivided rest →
        Undivided (blanks ++ (bracket.opener :: (inner ++ bracket.closer :: rest)))) := by
  have hsplit : blanks ++ (bracket.opener :: (inner ++ bracket.closer :: rest)) =
      blanks ++ ((bracket.opener :: (inner ++ [bracket.closer])) ++ rest) := by simp
  have hleading := Scan.closed_of_allBlank hblanks
  have hgroup := hinner.group bracket
  rw [hsplit]
  exact ⟨hleading.append (hgroup.append hrest), fun hrest =>
    Undivided.append hleading (Scan.undivided_of_allBlank hblanks)
      (Undivided.append hgroup (hinner.undivided_group bracket) hrest)⟩

/-- A row of items between brackets is spelled between the brackets. -/
theorem closed_brackets {opening closing : Token} {items : List Item} {text behind : List Char}
    (bracket : Bracket) (hopening : Lexeme.isBracketToken opening = true)
    (hopener : ∀ sign ∈ Lexeme.signs, sign.2 = opening → sign.1 = [bracket.opener])
    (hclosing : Lexeme.isBracketToken closing = true)
    (hcloser : ∀ sign ∈ Lexeme.signs, sign.2 = closing → sign.1 = [bracket.closer])
    (h : Spells (.token opening :: (items ++ [.token closing])) text behind)
    (hitems : ∀ {inner behind}, Spells items inner behind → Closed inner) :
    Closed text ∧ Undivided text := by
  obtain ⟨blanks, source, rest, rfl, hblanks, hmade, hrest⟩ := exists_of_spells_token h
  obtain rfl := Lexeme.source_of_bracket hmade hopener hopening
  obtain ⟨inner, last, rfl, hinner, hlast⟩ := hrest.split
  obtain ⟨gap, source', rest', rfl, hgap, hmade', hrest'⟩ := exists_of_spells_token hlast
  obtain rfl := Lexeme.source_of_bracket hmade' hcloser hclosing
  cases hrest'
  have hbody := (hitems hinner).append (Scan.closed_of_allBlank hgap)
  obtain ⟨hclosed, hundivided⟩ :=
    closed_group_append bracket hblanks hbody Scan.closed_nil
  have hsplit : blanks ++ ([bracket.opener] ++ (inner ++ (gap ++ ([bracket.closer] ++ [])))) =
      blanks ++ (bracket.opener :: ((inner ++ gap) ++ bracket.closer :: [])) := by simp
  rw [hsplit]
  exact ⟨hclosed, hundivided Scan.undivided_nil⟩

/-- A call is closed and undivided when the pieces of its argument text are closed. -/
theorem closed_call {n : String} {arguments text behind : List Char}
    (h : Spells [.call n arguments] text behind)
    (hpieces : ∀ piece ∈ (ArgTree.fullSplit arguments).expressions, Closed piece) :
    Closed text ∧ Undivided text := by
  cases h with
  | @call blanks source gap _ rest _ _ _ hblanks hgap hword _ hrest =>
    cases hrest
    obtain ⟨hgroup, hundivided⟩ := closed_group_append .round hgap
      (ArgTree.closed_of_fullSplit hpieces) Scan.closed_nil
    have hmade : Lexeme.Made source (.name n) ((gap ++ '(' :: (arguments ++ [')'])) ++ behind) :=
      Lexeme.made_of_word (by simpa using hword)
    obtain ⟨hclosed, hundivided'⟩ := closed_word_append hblanks hmade rfl hgroup
    exact ⟨hclosed, hundivided' (by simp) (hundivided Scan.undivided_nil)⟩

/-- The pieces of a full split are closed when what they spell is. -/
theorem closed_of_pieces {arguments : List Char} {pieces : ArgTree Piece}
    (htext : pieces.map Piece.text = ArgTree.fullSplit arguments)
    (hspelled : ∀ piece ∈ pieces.expressions, Spelled piece.text piece.items)
    (hclosed : ∀ piece ∈ pieces.expressions, ∀ {text behind}, Spells piece.items text behind →
      Closed text ∧ (Category.chain 1 ≠ .elements → Undivided text)) :
    ∀ piece ∈ (ArgTree.fullSplit arguments).expressions, Closed piece := by
  intro text hmem
  rw [← htext, ArgTree.expressions_map] at hmem
  obtain ⟨piece, hpiece, rfl⟩ := List.mem_map.1 hmem
  obtain ⟨spelling, blanks, heq, hblanks, hspells⟩ := hspelled piece hpiece
  rw [heq]
  exact (hclosed piece hpiece hspells).1.append (Scan.closed_of_allBlank hblanks)

/-- A phrase is **closed**, and unless it is a row of expressions it is undivided. -/
theorem closed_of_derives {grid : Grid} {category : Category} {items : List Item} {e : Expr}
    (h : Derives grid category items e) {text behind : List Char}
    (hspells : Spells items text behind) :
    Closed text ∧ (category ≠ .elements → Undivided text) := by
  induction h generalizing text behind with
  | number | text | field | hash | name =>
    obtain ⟨blanks, source, rest, rfl, hblanks, hmade, hrest⟩ := exists_of_spells_token hspells
    cases hrest
    obtain ⟨hclosed, hundivided⟩ := closed_word_append hblanks hmade rfl Scan.closed_nil
    exact ⟨hclosed, fun _ => hundivided (by simp) Scan.undivided_nil⟩
  | paren _ ih =>
    obtain ⟨hclosed, hundivided⟩ := closed_brackets .round rfl (by decide) rfl (by decide) hspells
      fun hinner => (ih hinner).1
    exact ⟨hclosed, fun _ => hundivided⟩
  | empty =>
    have hnil : ∀ {inner behind}, Spells [] inner behind → Closed inner := by
      intro inner behind h
      cases h
      exact Scan.closed_nil
    have hspells' : Spells (.token .squareOpen :: ([] ++ [.token .squareClose])) text behind :=
      hspells
    obtain ⟨hclosed, hundivided⟩ :=
      closed_brackets .square rfl (by decide) rfl (by decide) hspells' hnil
    exact ⟨hclosed, fun _ => hundivided⟩
  | sequence _ ih =>
    obtain ⟨hclosed, hundivided⟩ := closed_brackets .square rfl (by decide) rfl (by decide) hspells
      fun hinner => (ih hinner).1
    exact ⟨hclosed, fun _ => hundivided⟩
  | call htext hspelled _ ih =>
    obtain ⟨hclosed, hundivided⟩ := closed_call hspells (closed_of_pieces htext hspelled ih)
    exact ⟨hclosed, fun _ => hundivided⟩
  | ofAtom _ ih => exact ⟨(ih hspells).1, fun _ => (ih hspells).2 (by simp)⟩
  | member _ ih =>
    obtain ⟨first, second, rfl, hfirst, hsecond⟩ := hspells.split
    obtain ⟨blanks, source, rest, rfl, hblanks, hmade, hrest⟩ := exists_of_spells_token hsecond
    obtain ⟨blanks', source', rest', rfl, hblanks', hmade', hrest'⟩ := exists_of_spells_token hrest
    cases hrest'
    obtain ⟨hname, hname'⟩ := closed_word_append hblanks' hmade' rfl Scan.closed_nil
    obtain ⟨hdot, hdot'⟩ := closed_word_append hblanks hmade rfl hname
    have hmember := hdot' (by simp) (hname' (by simp) Scan.undivided_nil)
    exact ⟨(ih hfirst).1.append hdot, fun _ =>
      Undivided.append (ih hfirst).1 ((ih hfirst).2 (by simp)) hmember⟩
  | memberCall _ htext hspelled _ ih ihpieces =>
    obtain ⟨first, second, rfl, hfirst, hsecond⟩ := hspells.split
    obtain ⟨blanks, source, rest, rfl, hblanks, hmade, hrest⟩ := exists_of_spells_token hsecond
    obtain ⟨hcall, hcall'⟩ := closed_call hrest (closed_of_pieces htext hspelled ihpieces)
    obtain ⟨hdot, hdot'⟩ := closed_word_append hblanks hmade rfl hcall
    have hmember := hdot' (by simp) hcall'
    exact ⟨(ih hfirst).1.append hdot, fun _ =>
      Undivided.append (ih hfirst).1 ((ih hfirst).2 (by simp)) hmember⟩
  | ofTarget _ ih => exact ⟨(ih hspells).1, fun _ => (ih hspells).2 (by simp)⟩
  | @unary op _ _ _ ih =>
    obtain ⟨blanks, source, rest, rfl, hblanks, hmade, hrest⟩ := exists_of_spells_token hspells
    have htoken : Lexeme.isBracketToken op.token = false ∧ op.token ≠ .comma := by
      cases op <;> decide
    obtain ⟨hclosed, hundivided⟩ := closed_word_append hblanks hmade htoken.1 (ih hrest).1
    exact ⟨hclosed, fun _ => hundivided htoken.2 ((ih hrest).2 (by simp))⟩
  | ofOperand _ ih => exact ⟨(ih hspells).1, fun _ => (ih hspells).2 (by simp)⟩
  | ofTighter _ ih => exact ⟨(ih hspells).1, fun _ => (ih hspells).2 (by simp)⟩
  | binary _ _ ihleft ihright =>
    obtain ⟨first, second, rfl, hfirst, hsecond⟩ := hspells.split
    obtain ⟨blanks, source, rest, rfl, hblanks, hmade, hrest⟩ := exists_of_spells_token hsecond
    obtain ⟨hleft, hleft'⟩ := ihleft hfirst
    obtain ⟨hright, hright'⟩ := ihright hrest
    obtain ⟨hclosed, hundivided⟩ := closed_word_append hblanks hmade rfl hright
    exact ⟨hleft.append hclosed, fun _ =>
      Undivided.append hleft (hleft' (by simp)) (hundivided (by simp) (hright' (by simp)))⟩
  | element _ ih => exact ⟨(ih hspells).1, fun h => absurd rfl h⟩
  | elements _ _ ihfirst ihothers =>
    obtain ⟨first, second, rfl, hfirst, hsecond⟩ := hspells.split
    obtain ⟨blanks, source, rest, rfl, hblanks, hmade, hrest⟩ := exists_of_spells_token hsecond
    obtain ⟨hclosed, -⟩ := closed_word_append hblanks hmade rfl (ihothers hrest).1
    exact ⟨(ihfirst hfirst).1.append hclosed, fun h => absurd rfl h⟩

end Phrases

/-! ### Single expressions -/

namespace Expr

/-- What reads as an expression is closed and undivided. -/
theorem closed_of_reads {grid : Grid} {text : List Char} {r : Expr} (h : Reads grid text r) :
    Scan.Closed text ∧ Scan.Undivided text := by
  obtain ⟨items, ⟨spelling, blanks, rfl, hblanks, hspells⟩, hderives⟩ := h
  obtain ⟨hclosed, hundivided⟩ := closed_of_derives hderives hspells
  exact ⟨hclosed.append (Scan.closed_of_allBlank hblanks),
    Scan.Undivided.append hclosed (hundivided (by simp)) (Scan.undivided_of_allBlank hblanks)⟩

theorem derives_ne_nil {grid : Grid} {category : Category} {items : List Item} {e : Expr}
    (h : Derives grid category items e) : items ≠ [] := by
  induction h <;> simp_all

/-- A blank text reads as nothing. -/
theorem allBlank_of_reads {grid : Grid} {text : List Char} {r : Expr} (h : Reads grid text r) :
    allBlank text = false := by
  obtain ⟨items, hspelled, hderives⟩ := h
  cases hblank : allBlank text with
  | false => rfl
  | true =>
    obtain ⟨last, htakes⟩ := (TokenStream.spelled_iff_takes 0).1 hspelled
    rw [TokenStream.ofTextAt_of_allBlank 0 hblank] at htakes
    cases htakes
    exact absurd rfl (derives_ne_nil hderives)

/-- Padding a text does not change what it is compiled to. -/
theorem compile_trim {env : Env} {options : Options} (h : options.expandTemplates = false)
    (text : List Char) (e : Expr) :
    compile env options (Text.trim text) = .ok e ↔ compile env options text = .ok e := by
  simp only [compile_eq_ok_iff h, Reads, spelled_padded (Text.padded_trim text)]

variable {env : Env} {options : Options}

/-- **One expression is an argument tree of one leaf.** A text compiles to an expression exactly
when reading it as argument text gives the expression as a single leaf, and then no separator stands
at its top: the scan and the readers find the same closing marks. -/
theorem compile_eq_ok_iff_parseWith (h : options.expandTemplates = false) (text : List Char)
    (e : Expr) :
    (compile env options text = .ok e ↔ ArgTree.parseWith env options text = .ok (.leaf e)) ∧
      (compile env options text = .ok e → ∀ ⦃level : Level⦄ ⦃sep : Char⦄,
        level.separator? = some sep → Scan.hasSeparator sep text = false) := by
  have hundivided : compile env options text = .ok e → Scan.Undivided text := by
    intro hcompile
    obtain ⟨r, hreads, -⟩ := (compile_eq_ok_iff h).1 hcompile
    exact (closed_of_reads hreads).2
  refine ⟨⟨fun hcompile => ?_, fun hparse => ?_⟩, hundivided⟩
  · obtain ⟨r, hreads, -⟩ := (compile_eq_ok_iff h).1 hcompile
    have hone : ArgTree.fullSplit text = .leaf (Text.trim text) := by
      rw [ArgTree.fullSplit_of_undivided (hundivided hcompile),
        ArgTree.innermost_of_not_blank (allBlank_of_reads hreads)]
    obtain ⟨leaf, houtline, hleaf⟩ := ArgTree.exists_of_fullSplit_eq_leaf hone
    have htrim := (compile_trim h text e).2 hcompile
    refine ((ArgTree.alongOutline_ofText (compileAt env options 0) text).tree (fun _ => e) ?_).trans ?_
    · intro piece hpiece
      rw [houtline, ArgTree.expressions_leaf, List.mem_singleton] at hpiece
      rw [hpiece, hleaf]
      exact htrim
    · rw [houtline]
      rfl
  · obtain ⟨leaf, houtline, hleaf⟩ := ArgTree.exists_of_ofText_eq_leaf hparse
    have hone : ArgTree.fullSplit text = .leaf leaf.text := by
      rw [← ArgTree.map_text_outline, houtline]
      rfl
    rw [ArgTree.eq_trim_of_fullSplit hone] at hleaf
    exact (compile_trim h text e).1 hleaf

/-- In `f(x;'u,')` the semicolon stands between parentheses and the comma in a quotation, so the
text is one leaf. -/
theorem parseWith_call_eq_leaf :
    ArgTree.parseWith ⟨⟨9, 9⟩, .empty⟩ {} ['f', '(', 'x', ';', '\'', 'u', ',', '\'', ')'] =
      (.ok (.leaf (.call "f" (.group .semicolon [.leaf (.name "x"), .leaf (.field "u,")]))) :
        Except Error (ArgTree Expr)) :=
  (compile_eq_ok_iff_parseWith rfl ['f', '(', 'x', ';', '\'', 'u', ',', '\'', ')']
    (.call "f" (.group .semicolon [.leaf (.name "x"), .leaf (.field "u,")]))).1.1 (by cbv)

end Expr

end GridFormula
