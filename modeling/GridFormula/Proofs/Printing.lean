import GridFormula.Expr.Print
import GridFormula.Proofs.Cells
import GridFormula.Proofs.Numerals
import GridFormula.Proofs.Shape

/-!
# Reading printed expressions

The written form of a well-formed expression is spelled without blanks, and by the grammar it is the
expression with its literals unfolded. What has to be seen to is where two words meet: no name, no
numeral and no sign may go on with the text behind it. It never does, except that a numeral goes on
with the dot of a member.

## Main definitions

* `Value.isFinite`, `Expr.Writable`: what can be written so that it is read back.
* `Expr.PartedFrom`: texts that do not go on with that of an expression.
* `Expr.Printed`: an expression whose written form is read as its unfolded form.

## Main results

* `Expr.printed_of_everywhere`: a well-formed expression of writable nodes is printed.
* `Expr.reads_text`: its text reads as its unfolded form.
-/

namespace GridFormula

open Text (isBlank allBlank)

/-! ### Values that can be written -/

/-- Whether a number is finite. -/
def Number.isFinite : Number → Bool
  | .nan => false
  | .signed _ m => !m.isInfinite

mutual

/-- Whether all numbers in a value are **finite**. -/
def Value.isFinite : Value → Bool
  | .null => true
  | .bool _ => true
  | .number n => n.isFinite
  | .text _ => true
  | .sequence items => Value.allFinite items

/-- Whether all numbers in a row of values are finite. -/
def Value.allFinite : List Value → Bool
  | [] => true
  | item :: others => item.isFinite && Value.allFinite others

end

theorem Value.isFinite_sequence {items : List Value} :
    (Value.sequence items).isFinite = true ↔ ∀ item ∈ items, item.isFinite = true := by
  rw [Value.isFinite]
  induction items with
  | nil => simp [Value.allFinite]
  | cons item others ih => simp [Value.allFinite, ih]

/-! ### Printed words -/

namespace Lexeme

/-- A text whose characters are written as themselves, or behind a backslash where that has to be,
is read back up to the closing mark. -/
theorem quotation_written {mark : Char} (hmark : '\\' ≠ mark) (written : Char → List Char)
    {content : List Char}
    (h : ∀ c ∈ content, written c = ['\\', c] ∧ unescaped c = c ∨
      written c = [c] ∧ c ≠ mark ∧ c ≠ '\\') :
    quotation mark (content.flatMap written ++ [mark]) =
      ⟨some content, content.flatMap written ++ [mark], []⟩ := by
  induction content with
  | nil => simp [quotation]
  | cons c rest ih =>
    obtain ⟨hc, hrest⟩ := List.forall_mem_cons.1 h
    rw [List.flatMap_cons, List.append_assoc]
    rcases hc with ⟨hwritten, hescape⟩ | ⟨hwritten, hne, hslash⟩
    · rw [hwritten, List.cons_append, List.cons_append, List.nil_append,
        quotation_cons_escape hmark, ih hrest, hescape]
      rfl
    · rw [hwritten, List.cons_append, List.nil_append, quotation_cons hne hslash, ih hrest]
      rfl

/-- A text between double quotes is one word. -/
theorem made_quoted (s : String) (behind : List Char) :
    Made (Value.quoted s.toList) (.text s) behind := by
  have hwritten : ∀ c ∈ s.toList,
      (if c = '"' || c = '\\' then ['\\', c] else [c]) = ['\\', c] ∧ unescaped c = c ∨
        (if c = '"' || c = '\\' then ['\\', c] else [c]) = [c] ∧ c ≠ '"' ∧ c ≠ '\\' := by
    intro c _
    by_cases hquote : c = '"'
    · exact .inl (by subst hquote; decide)
    · by_cases hslash : c = '\\'
      · exact .inl (by subst hslash; decide)
      · exact .inr ⟨by simp [hquote, hslash], hquote, hslash⟩
  have hmade : Made (Value.quoted s.toList) (.text (String.ofList s.toList)) behind :=
    .text (quotation_written (by decide) _ hwritten)
  rwa [String.ofList_toList] at hmade

/-- A field name between apostrophes is one word, unless a backslash in it is taken for an
escape. -/
theorem made_fieldText {n : String} (h : '\\' ∉ n.toList) (behind : List Char) :
    Made (Expr.fieldText n.toList) (.field n) behind := by
  have hwritten : ∀ c ∈ n.toList,
      (if c = '\'' then ['\\', '\''] else [c]) = ['\\', c] ∧ unescaped c = c ∨
        (if c = '\'' then ['\\', '\''] else [c]) = [c] ∧ c ≠ '\'' ∧ c ≠ '\\' := by
    intro c hc
    by_cases hquote : c = '\''
    · exact .inl (by subst hquote; decide)
    · exact .inr ⟨by simp [hquote], hquote, fun hslash => h (hslash ▸ hc)⟩
  have hmade : Made (Expr.fieldText n.toList) (.field (String.ofList n.toList)) behind :=
    .field (quotation_written (by decide) _ hwritten)
  rwa [String.ofList_toList] at hmade

end Lexeme

/-- A **stop** is a character that goes on with no word and is neither blank nor a dot. -/
def isStop (c : Char) : Bool :=
  !Lexeme.isNamePart c && !isBlank c && c ≠ '(' && c ≠ '.'

/-- A text **stops** what stands in front of it when it is empty or begins with a stop. -/
def Stops (behind : List Char) : Prop := ∀ c ∈ behind.head?, isStop c = true

theorem stops_nil : Stops [] := nofun

theorem stops_cons {c : Char} (h : isStop c = true) (rest : List Char) : Stops (c :: rest) := by
  intro d hd
  cases hd
  exact h

/-! ### Printed items -/

theorem isNamePart_of_isStop {c : Char} (h : isStop c = true ∨ c = '.') :
    Lexeme.isNamePart c = false := by
  rcases h with h | rfl
  · simp only [isStop, Bool.and_eq_true, Bool.not_eq_true'] at h
    exact h.1.1.1
  · decide

theorem isNumeralPart_of_isStop {c : Char} (h : isStop c = true) :
    Lexeme.isNumeralPart c = false := by
  have hpart := isNamePart_of_isStop (.inl h)
  have hdigit : c.isDigit = false := by
    cases hdigit : c.isDigit with
    | false => rfl
    | true =>
      rw [Lexeme.isNamePart_of_isDigit hdigit] at hpart
      cases hpart
  simp only [isStop, Bool.and_eq_true, decide_eq_true_eq] at h
  simp [Lexeme.isNumeralPart, hdigit, h.2]

theorem isExponentMark_of_isStop {c : Char} (h : isStop c = true) :
    Lexeme.isExponentMark c = false := by
  have hpart := isNamePart_of_isStop (.inl h)
  cases hmark : Lexeme.isExponentMark c with
  | false => rfl
  | true => exact nomatch hpart.symm.trans (Lexeme.isNamePart_of_isExponentMark hmark)

theorem noCall_of_isStop {behind : List Char} (h : ∀ c ∈ behind.head?, isStop c = true ∨ c = '.') :
    NoCall behind := by
  intro rest heq
  cases behind with
  | nil => cases heq
  | cons c tail =>
    have hc : isBlank c = false ∧ c ≠ '(' := by
      rcases h c rfl with h | rfl
      · simp only [isStop, Bool.and_eq_true, Bool.not_eq_true', decide_eq_true_eq] at h
        exact ⟨h.1.1.2, h.1.2⟩
      · decide
    rw [List.dropWhile_cons_of_neg (by simp [hc.1])] at heq
    cases heq
    exact hc.2 rfl

theorem made_name {n : String} (h : IsName n) {behind : List Char}
    (hbehind : ∀ c ∈ behind.head?, Lexeme.isNamePart c = false) :
    Lexeme.Made n.toList (.name n) behind := by
  obtain ⟨c, rest, htext, hdigit, hstart, hrest⟩ := h
  have hmade := Lexeme.Made.name hdigit hstart hrest hbehind
  rwa [← htext, String.ofList_toList] at hmade

/-- A word without blanks in front of it is the next token, unless it is a name. -/
theorem Spells.word {source text behind : List Char} {t : Token} {items : List Item}
    (hmade : Lexeme.Made source t (text ++ behind)) (hname : ∀ n, t ≠ .name n)
    (h : Spells items text behind) : Spells (.token t :: items) (source ++ text) behind := by
  have hspells : Spells (.token t :: items) ([] ++ (source ++ text)) behind :=
    .token rfl (Lexeme.word_of_made hmade) (fun n heq => absurd heq (hname n)) h
  exact hspells

/-- A name is the next token when it is no call. -/
theorem Spells.nameWord {n : String} {behind : List Char} (hn : IsName n)
    (h : ∀ c ∈ behind.head?, isStop c = true ∨ c = '.') :
    Spells [.token (.name n)] n.toList behind := by
  have hmade : Lexeme.Made n.toList (.name n) ([] ++ behind) :=
    made_name hn fun c hc => isNamePart_of_isStop (h c hc)
  have hspells : Spells [.token (.name n)] ([] ++ (n.toList ++ [])) behind :=
    .token rfl (Lexeme.word_of_made hmade) (fun _ _ => noCall_of_isStop h) .nil
  simpa using hspells

/-- A name with closed text between parentheses is the next call. -/
theorem Spells.callWord {n : String} {arguments behind : List Char} (hn : IsName n)
    (hclosed : Scan.Closed arguments) :
    Spells [.call n arguments] (n.toList ++ '(' :: (arguments ++ [')'])) behind := by
  have hmade : Lexeme.Made n.toList (.name n) ([] ++ '(' :: (arguments ++ ')' :: ([] ++ behind))) :=
    made_name hn fun c hc => by cases hc; decide
  have hspells : Spells [.call n arguments]
      ([] ++ (n.toList ++ ([] ++ '(' :: (arguments ++ ')' :: [])))) behind :=
    .call rfl rfl (Lexeme.word_of_made hmade)
      (Scan.splitAtCloser_of_closed hclosed .round behind) .nil
  exact hspells

/-- A text **starts** like an expression when its first character does not go on with the sign of an
operator. -/
def Starts (text : List Char) : Prop := ∃ c rest, text = c :: rest ∧ c ≠ '=' ∧ c ≠ '&'

theorem Starts.append {text : List Char} (h : Starts text) (behind : List Char) :
    Starts (text ++ behind) := by
  obtain ⟨c, rest, rfl, hc⟩ := h
  exact ⟨c, rest ++ behind, rfl, hc⟩

/-- A longer sign goes on with an equals sign or an ampersand. -/
theorem eq_of_longer_sign {source : List Char} {t : Token} (h : (source, t) ∈ Lexeme.signs)
    {longer : List Char × Token} (hmem : longer ∈ Lexeme.signs) {d : Char}
    (hlonger : longer.1 = source ++ [d]) : d = '=' ∨ d = '&' := by
  have hlast : ∀ sign ∈ Lexeme.signs, ∀ longer ∈ Lexeme.signs, longer.1.dropLast = sign.1 →
      longer.1.getLast? = some '=' ∨ longer.1.getLast? = some '&' := by decide
  have hd := hlast _ h longer hmem (by rw [hlonger, List.dropLast_concat])
  simpa [hlonger] using hd

/-- A sign in front of an expression is one word. -/
theorem made_of_starts {source behind : List Char} {t : Token} (h : (source, t) ∈ Lexeme.signs)
    (hstarts : Starts behind) : Lexeme.Made source t behind := by
  obtain ⟨c, rest, rfl, hequal, hand⟩ := hstarts
  refine .sign h fun d hd longer hmem hlonger => ?_
  cases hd
  exact (eq_of_longer_sign h hmem hlonger).elim hequal hand

theorem made_symbol {behind : List Char} (op : BinaryOp) (h : Starts behind) :
    Lexeme.Made op.symbol.toList (.operator op) behind :=
  made_of_starts (by cases op <;> decide) h

theorem made_unary {behind : List Char} (op : UnaryOp) (h : Starts behind) :
    Lexeme.Made op.symbol.toList op.token behind :=
  made_of_starts (by cases op <;> decide) h

/-! ### Categories by tightness -/

/-- The category of phrases that are so tight. -/
def Category.ofTightness (p : Nat) : Category :=
  if p = 8 then .target else if p = 7 then .operand else .chain p

section Loosen

variable {grid : Grid} {items : List Item} {e : Expr}

theorem Derives.loosen {p k : Nat} (h : Derives grid (.chain (p + k)) items e) :
    Derives grid (.chain p) items e := by
  induction k with
  | zero => exact h
  | succ k ih => exact ih (.ofTighter h)

theorem Derives.operand_of_tightness {p : Nat} (hle : p ≤ 8)
    (h : Derives grid (.ofTightness p) items e) (hp : 7 ≤ p) : Derives grid .operand items e := by
  rcases Nat.eq_or_lt_of_le hp with rfl | hlt
  · exact h
  · obtain rfl : p = 8 := by omega
    exact .ofTarget h

/-- A phrase is a chain of any precedence up to its tightness. -/
theorem Derives.chain_of_tightness {p q : Nat} (hle : q ≤ 8)
    (h : Derives grid (.ofTightness q) items e) (hp : p ≤ q) (hseven : p ≤ 7) :
    Derives grid (.chain p) items e := by
  by_cases hq : 7 ≤ q
  · have hchain := Derives.ofOperand (h.operand_of_tightness hle hq)
    rw [← Nat.add_sub_cancel' hseven] at hchain
    exact hchain.loosen
  · have hchain : Derives grid (.chain q) items e := by
      rw [Category.ofTightness, if_neg (by omega), if_neg (by omega)] at h
      exact h
    rw [← Nat.add_sub_cancel' hp] at hchain
    exact hchain.loosen

end Loosen

namespace Expr

theorem tightness_le (e : Expr) : e.tightness ≤ 8 := by
  unfold tightness
  split
  · decide
  · decide
  · next op _ _ => cases op <;> decide
  · exact Nat.le_refl 8

theorem one_le_tightness (e : Expr) : 1 ≤ e.tightness := by
  unfold tightness
  split
  · decide
  · decide
  · next op _ _ => cases op <;> decide
  · decide

theorem seven_le_tightness (value : Value) : 7 ≤ (literal value).tightness := by
  unfold tightness
  split
  · exact Nat.le_refl 7
  · decide
  · next heq => cases heq
  · decide

/-- Up to seven every literal is tight enough. -/
theorem Holds.le_tightness {p : Nat} {e : Expr} (h : Holds p e) (hp : p ≤ 7) :
    p ≤ e.tightness := by
  rcases h with h | ⟨value, rfl⟩
  · exact h
  · exact Nat.le_trans hp (seven_le_tightness value)

/-- A target that is no number holds most tightly. -/
theorem Holds.tightness_eq {e : Expr} (h : Holds 8 e) (hnumber : ∀ n, e ≠ .literal (.number n)) :
    e.tightness = 8 := by
  rcases h with hle | ⟨value, rfl⟩
  · exact Nat.le_antisymm e.tightness_le hle
  · unfold tightness
    split
    · next heq => exact absurd heq (hnumber _)
    · next heq => cases heq
    · next heq => cases heq
    · rfl

/-! ### Printed expressions -/

/-- A node is **writable** unless a number in it is not finite, a field name has a backslash, or a
number is the target of a member. -/
def Writable : Expr → Prop
  | .literal value => value.isFinite = true
  | .field n => '\\' ∉ n.toList
  | .member target _ => ∀ n, target ≠ .literal (.number n)
  | .memberCall target _ _ => ∀ n, target ≠ .literal (.number n)
  | _ => True

/-- The text of an expression is **parted** from one that stops it. The dot of a member stops
anything that is tight enough except a number. -/
def PartedFrom (e : Expr) (behind : List Char) : Prop :=
  ∀ c ∈ behind.head?, isStop c = true ∨
    c = '.' ∧ e.tightness = 8 ∧ ∀ n, e ≠ .literal (.number n)

/-- An expression is **printed** in front of some text when its written form is there read as its
unfolded form. -/
def Printed (grid : Grid) (e : Expr) (behind : List Char) : Prop :=
  ∃ items, Spells items e.text behind ∧
    Derives grid (.ofTightness e.tightness) items e.unfolded

theorem partedFrom_of_stops {behind : List Char} (h : Stops behind) (e : Expr) :
    e.PartedFrom behind :=
  fun c hc => .inl (h c hc)

section PartedFrom

variable {e : Expr} {behind : List Char} (h : e.PartedFrom behind)
include h

theorem PartedFrom.isStop_or : ∀ c ∈ behind.head?, isStop c = true ∨ c = '.' :=
  fun c hc => (h c hc).imp_right And.left

theorem PartedFrom.stops (he : e.tightness ≠ 8) : Stops behind := by
  intro c hc
  rcases h c hc with h | ⟨-, h, -⟩
  · exact h
  · exact absurd h he

theorem PartedFrom.stops_of_number {n : Number} (he : e = .literal (.number n)) :
    Stops behind := by
  intro c hc
  rcases h c hc with h | ⟨-, -, h⟩
  · exact h
  · exact absurd he (h n)

end PartedFrom

/-! ### Printed literals -/

section Literals

variable {grid : Grid} {e : Expr} {behind : List Char}

/-- An expression of one word other than a name. -/
theorem printed_of_made {t : Token} (hmade : Lexeme.Made e.text t behind)
    (hname : ∀ n, t ≠ .name n) (htight : e.tightness = 8)
    (hderives : Derives grid .atom [.token t] e.unfolded) : Printed grid e behind := by
  refine ⟨[.token t], ?_, ?_⟩
  · have hspells : Spells [.token t] (e.text ++ []) behind := .word hmade hname .nil
    rwa [List.append_nil] at hspells
  · rw [htight]
    exact .ofAtom hderives

/-- An expression of one name. -/
theorem printed_of_isName {n : String} (htext : e.text = n.toList) (hn : IsName n)
    (htight : e.tightness = 8) (hstands : StandsFor grid n e.unfolded)
    (h : e.PartedFrom behind) : Printed grid e behind := by
  refine ⟨[.token (.name n)], ?_, ?_⟩
  · rw [htext]
    exact .nameWord hn h.isStop_or
  · rw [htight]
    exact .ofAtom (.name hstands)

theorem isName_of_all {n : String} {c : Char} {rest : List Char} (h : n.toList = c :: rest)
    (hall : (!c.isDigit && Lexeme.isNameStart c && rest.all Lexeme.isNamePart) = true) :
    IsName n := by
  simp only [Bool.and_eq_true, Bool.not_eq_true', List.all_eq_true] at hall
  exact ⟨c, rest, h, hall.1.1, hall.1.2, hall.2⟩

theorem isName_keyword {n : String} {value : Value} (h : keyword? n = some value) : IsName n := by
  rcases keyword?_cases h with ⟨rfl, -⟩ | ⟨rfl, -⟩ | ⟨rfl, -⟩
  · exact isName_of_all (rfl : _ = ['t', 'r', 'u', 'e']) (by decide +kernel)
  · exact isName_of_all (rfl : _ = ['f', 'a', 'l', 's', 'e']) (by decide +kernel)
  · exact isName_of_all (rfl : _ = ['n', 'u', 'l', 'l']) (by decide +kernel)

theorem starts_magnitude {m : Magnitude} (h : m.isInfinite = false) : Starts m.text := by
  obtain ⟨c, rest, htext, hc, -⟩ := Magnitude.exists_text_eq_cons h
  refine ⟨c, rest, htext, ?_, ?_⟩ <;> rintro rfl <;> cases hc

/-- A numeral is one word in front of what stops it. -/
theorem spells_magnitude {m : Magnitude} (h : m.isInfinite = false) (hbehind : Stops behind) :
    Spells [.token (.number (.signed false m))] m.text behind := by
  have hmade : Lexeme.Made m.text (.number (.signed false m)) ([] ++ behind) := by
    refine Magnitude.made_text h fun c hc => ?_
    exact ⟨isNumeralPart_of_isStop (hbehind c hc), isExponentMark_of_isStop (hbehind c hc)⟩
  have hspells : Spells [.token (.number (.signed false m))] (m.text ++ []) behind :=
    .word hmade (Token.ne_name rfl) .nil
  rwa [List.append_nil] at hspells

/-- A finite number is printed. -/
theorem printed_number {n : Number} (h : n.isFinite = true)
    (hbehind : (literal (.number n)).PartedFrom behind) :
    Printed grid (.literal (.number n)) behind := by
  have hstops := hbehind.stops_of_number rfl
  cases n with
  | nan => cases h
  | signed negative m =>
    have hm : m.isInfinite = false := by simpa [Number.isFinite] using h
    have hspells := spells_magnitude hm hstops
    cases negative with
    | false =>
      refine ⟨_, hspells, .ofAtom ?_⟩
      rw [unfolded, Value.unfolded]
      · exact .number
      · rintro _ ⟨⟩
    | true =>
      have hsign : Lexeme.Made ['-'] (.operator .subtract) (m.text ++ behind) :=
        made_unary .negate ((starts_magnitude hm).append behind)
      have hderives : Derives grid .operand
          [.token UnaryOp.negate.token, .token (.number (.signed false m))]
          (.unary .negate (.literal (.number (.signed false m)))) :=
        .unary (.ofTarget (.ofAtom .number))
      exact ⟨_, hspells.word hsign (Token.ne_name rfl), hderives⟩

end Literals

/-! ### Printed rows -/

section Rows

variable {grid : Grid}

/-- The items of a sequence are printed with commas between them. -/
theorem spells_items {items : List Expr} (hne : items ≠ [])
    (hitems : ∀ item ∈ items, ∀ {behind}, item.PartedFrom behind → Printed grid item behind)
    {behind : List Char} (hbehind : Stops behind) :
    ∃ row, Spells row (itemsText items) behind ∧
      Derives grid .elements row (.sequence (items.map unfolded)) := by
  induction items with
  | nil => exact absurd rfl hne
  | cons item others ih =>
    obtain ⟨hitem, hothers⟩ := List.forall_mem_cons.1 hitems
    have hchain : ∀ {row}, Derives grid (.ofTightness item.tightness) row item.unfolded →
        Derives grid (.chain 1) row item.unfolded := by
      intro row h
      exact h.chain_of_tightness item.tightness_le item.one_le_tightness (by decide)
    cases others with
    | nil =>
      obtain ⟨row, hspells, hderives⟩ := hitem (partedFrom_of_stops hbehind item)
      exact ⟨row, hspells, .element (hchain hderives)⟩
    | cons next others =>
      obtain ⟨second, hsecond, hrest⟩ := ih (List.cons_ne_nil _ _) hothers
      have hcomma : Lexeme.Made [','] .comma (itemsText (next :: others) ++ behind) :=
        Lexeme.made_mark (by decide) _
      have hparted : item.PartedFrom ((',' :: itemsText (next :: others)) ++ behind) :=
        partedFrom_of_stops (stops_cons (by decide +kernel) _) item
      obtain ⟨first, hfirst, hderives⟩ := hitem hparted
      exact ⟨_, hfirst.append (hsecond.word hcomma (Token.ne_name rfl)),
        .elements (hchain hderives) hrest⟩

/-- A sequence of printed expressions is printed. -/
theorem printed_sequence {items : List Expr}
    (hitems : ∀ item ∈ items, ∀ {behind}, item.PartedFrom behind → Printed grid item behind)
    (behind : List Char) : Printed grid (.sequence items) behind := by
  have hclose : Lexeme.Made [']'] .squareClose ([] ++ behind) :=
    Lexeme.made_mark (by decide) _
  have hopen : ∀ text, Lexeme.Made ['['] .squareOpen text :=
    Lexeme.made_mark (by decide)
  have hlast : Spells [.token .squareClose] [']'] behind :=
    Spells.nil.word hclose (Token.ne_name rfl)
  have hform : (sequence items).unfolded = .sequence (items.map unfolded) := by
    rw [unfolded, itemsUnfolded_eq_map]
  by_cases hne : items = []
  · subst hne
    exact ⟨_, hlast.word (hopen _) (Token.ne_name rfl), .ofAtom .empty⟩
  · have hstops : Stops ([']'] ++ behind) := stops_cons (by decide +kernel) _
    obtain ⟨row, hspells, hderives⟩ := spells_items hne hitems hstops
    have hwhole : Spells (.token .squareOpen :: (row ++ [.token .squareClose]))
        (['['] ++ (itemsText items ++ [']'])) behind :=
      (hspells.append hlast).word (hopen _) (Token.ne_name rfl)
    refine ⟨_, hwhole, .ofAtom ?_⟩
    rw [hform]
    exact .sequence hderives

/-- A constant is printed as the name that it is. -/
theorem printed_keyword {n : String} {value : Value} (h : keyword? n = some value)
    {behind : List Char} (hbehind : (literal value).PartedFrom behind) :
    Printed grid (.literal value) behind := by
  have hstands : ∀ {e : Expr}, e = .literal value → StandsFor grid n e := by
    rintro e rfl
    exact .constant h
  rcases keyword?_cases h with ⟨rfl, rfl⟩ | ⟨rfl, rfl⟩ | ⟨rfl, rfl⟩ <;>
    exact printed_of_isName rfl (isName_keyword h) rfl (hstands rfl) hbehind

/-- A row of values is written like the row of their literals. -/
theorem literals_eq_itemsText (items : List Value) :
    Value.literals items = itemsText (items.map literal) := by
  induction items with
  | nil => rfl
  | cons item others ih =>
    cases others with
    | nil => rfl
    | cons next others => exact congrArg (item.literal ++ ',' :: ·) ih

/-- A literal of finite numbers is printed. -/
theorem printed_literal {value : Value} (h : value.isFinite = true) {behind : List Char}
    (hbehind : (literal value).PartedFrom behind) : Printed grid (.literal value) behind := by
  induction value generalizing behind with
  | null => exact printed_keyword (rfl : keyword? "null" = _) hbehind
  | bool b =>
    cases b with
    | false => exact printed_keyword (rfl : keyword? "false" = _) hbehind
    | true => exact printed_keyword (rfl : keyword? "true" = _) hbehind
  | number n => exact printed_number h hbehind
  | text s =>
    exact printed_of_made (Lexeme.made_quoted s behind) (Token.ne_name rfl) rfl .text
  | sequence items ih =>
    rw [Value.isFinite_sequence] at h
    have hitems : ∀ item ∈ items.map literal, ∀ {behind}, item.PartedFrom behind →
        Printed grid item behind := by
      refine List.forall_mem_map.2 fun item hitem {behind} hparted => ?_
      exact ih item hitem (h item hitem) hparted
    obtain ⟨row, hspells, hderives⟩ := printed_sequence hitems behind
    refine ⟨row, ?_, ?_⟩
    · rw [text, Value.literal, literals_eq_itemsText]
      exact hspells
    · rw [← unfolded_values]
      exact hderives

/-- Arguments that read as their unfolded forms are closed, and they are pieces of the full split of
their text. -/
theorem exists_pieces {arguments : ArgTree Expr}
    (hgraded : arguments.Graded [.semicolon, .comma, .colon])
    (hreads : ∀ e ∈ arguments.expressions, Reads grid e.text e.unfolded) :
    Scan.Closed (argumentsText arguments) ∧ ∃ pieces : ArgTree Piece,
      pieces.map Piece.text = ArgTree.fullSplit (argumentsText arguments) ∧
      (∀ piece ∈ pieces.expressions, Spelled piece.text piece.items) ∧
      (∀ piece ∈ pieces.expressions, Derives grid (.chain 1) piece.items piece.value) ∧
        pieces.map Piece.value = argumentsUnfolded arguments := by
  have harguments : ∀ e ∈ arguments.expressions, ArgTree.IsArgument e.text :=
    fun e he => isArgument_of_reads (hreads e he)
  have hitems : ∀ e, ∃ items, e ∈ arguments.expressions →
      Spelled e.text items ∧ Derives grid (.chain 1) items e.unfolded := by
    intro e
    by_cases he : e ∈ arguments.expressions
    · obtain ⟨items, hspelled, hderives⟩ := hreads e he
      exact ⟨items, fun _ => ⟨hspelled, hderives⟩⟩
    · exact ⟨[], fun h => absurd h he⟩
  choose items hitems using hitems
  rw [argumentsText_eq]
  refine ⟨ArgTree.closed_text hgraded fun e he => (harguments e he).closed,
    arguments.map fun e => ⟨Text.trim e.text, items e, e.unfolded⟩, ?_, ?_, ?_, ?_⟩
  · rw [ArgTree.fullSplit_text hgraded harguments, ArgTree.map_map]
  · rw [ArgTree.expressions_map]
    refine List.forall_mem_map.2 fun e he => ?_
    exact (spelled_padded (Text.padded_trim e.text)).1 (hitems e he).1
  · rw [ArgTree.expressions_map]
    exact List.forall_mem_map.2 fun e he => (hitems e he).2
  · rw [ArgTree.map_map, argumentsUnfolded_eq_map]

end Rows

/-! ### Printed expressions -/

section Printed

variable {grid : Grid}

theorem isName_cell (c : Cell) : IsName (String.ofList c.name) := by
  obtain ⟨first, letters, hletters⟩ := List.exists_cons_of_ne_nil (Cell.columnName_ne_nil c.col)
  have hspec : ∀ d ∈ first :: letters, Lexeme.isNameStart d = true ∧ d.isDigit = false := by
    rw [← hletters]
    intro d hd
    obtain ⟨index, hindex, rfl⟩ := Cell.exists_of_mem_columnName hd
    have hletter := Cell.columnLetter_spec index hindex
    exact ⟨hletter.2.2.1, hletter.2.2.2.1⟩
  refine ⟨first, letters ++ Nat.toDigits 10 (c.row + 1), ?_, (hspec first (by simp)).2,
    (hspec first (by simp)).1, fun d hd => ?_⟩
  · rw [String.toList_ofList, Cell.name, hletters, List.cons_append]
  · rcases List.mem_append.1 hd with hd | hd
    · exact Lexeme.isNamePart_of_isNameStart (hspec d (List.mem_cons_of_mem _ hd)).1
    · exact Lexeme.isNamePart_of_isDigit (Nat.isDigit_of_mem_toDigits (by decide) (by decide) hd)

/-- The written form of a cell of the grid stands for the cell. -/
theorem standsFor_cell {n : List Char} {c : Cell} (h : grid.cell? n = some c) :
    StandsFor grid (String.ofList c.name) (.cell c) := by
  rw [Grid.cell?, Option.filter_eq_some_iff] at h
  have hread := Cell.ofName?_name (Cell.named_of_ofName? h.1)
  have hcell : grid.cell? (String.ofList c.name).toList = some c := by
    rw [String.toList_ofList, Grid.cell?, hread, Option.filter_some, h.2, if_pos rfl]
  refine .cell ?_ hcell
  have hno : ∀ n ∈ ["true", "false", "null"], Cell.ofName? n.toList = none := by decide
  cases hkeyword : keyword? (String.ofList c.name) with
  | none => rfl
  | some value =>
    have hmem : String.ofList c.name ∈ ["true", "false", "null"] := by
      rcases keyword?_cases hkeyword with ⟨heq, -⟩ | ⟨heq, -⟩ | ⟨heq, -⟩ <;> simp [heq]
    rw [Grid.cell?, hno _ hmem, Option.filter_none] at hcell
    cases hcell

theorem starts_name {n : String} (h : IsName n) : Starts n.toList := by
  obtain ⟨c, rest, htext, -, hstart, -⟩ := h
  refine ⟨c, rest, htext, ?_, ?_⟩ <;> rintro rfl <;> exact absurd hstart (by decide)

theorem starts_literal {value : Value} (h : value.isFinite = true) : Starts value.literal := by
  cases value with
  | null => exact ⟨_, _, rfl, by decide⟩
  | bool b => cases b <;> exact ⟨_, _, rfl, by decide⟩
  | number n =>
    cases n with
    | nan => cases h
    | signed negative m =>
      have hm : m.isInfinite = false := by simpa [Value.isFinite, Number.isFinite] using h
      cases negative with
      | false => exact starts_magnitude hm
      | true => exact ⟨_, _, rfl, by decide⟩
  | text s => exact ⟨_, _, rfl, by decide⟩
  | sequence items => exact ⟨_, _, rfl, by decide⟩

/-- The text of an expression **starts** with a character that goes on with no sign. -/
theorem starts_text {e : Expr} (hform : e.Everywhere (WellFormed grid))
    (hwritable : e.Everywhere Writable) : Starts e.text := by
  induction e with
  | literal value => exact starts_literal hwritable.self
  | name n => exact starts_name hform.self.1
  | field n => exact ⟨_, _, rfl, by decide⟩
  | currentRow => exact ⟨_, _, rfl, by decide⟩
  | cell c =>
    have hname := starts_name (isName_cell c)
    rwa [String.toList_ofList] at hname
  | sequence items => exact ⟨_, _, rfl, by decide⟩
  | paren inner => exact ⟨_, _, rfl, by decide⟩
  | call function arguments =>
    rw [text, List.append_assoc]
    exact (starts_name hform.self.1).append _
  | member target n ih =>
    rw [everywhere_member] at hform hwritable
    exact (ih hform.2 hwritable.2).append _
  | memberCall target n arguments ih =>
    rw [everywhere_memberCall] at hform hwritable
    simp only [text, List.append_assoc]
    exact (ih hform.2.1 hwritable.2.1).append _
  | unary op operand => cases op <;> exact ⟨_, _, rfl, by decide⟩
  | binary op left right ih =>
    rw [everywhere_binary] at hform hwritable
    rw [text, List.append_assoc]
    exact (ih hform.2.1 hwritable.2.1).append _

theorem printed_paren {inner : Expr} {behind : List Char}
    (h : ∀ {behind}, inner.PartedFrom behind → Printed grid inner behind) :
    Printed grid (.paren inner) behind := by
  have hclose : Lexeme.Made [')'] .roundClose ([] ++ behind) :=
    Lexeme.made_mark (by decide) _
  have hopen : Lexeme.Made ['('] .roundOpen ((inner.text ++ [')']) ++ behind) :=
    Lexeme.made_mark (by decide) _
  have hlast : Spells [.token .roundClose] [')'] behind :=
    Spells.nil.word hclose (Token.ne_name rfl)
  have hstops : Stops ([')'] ++ behind) := stops_cons (by decide +kernel) _
  obtain ⟨row, hspells, hderives⟩ := h (partedFrom_of_stops hstops inner)
  have hwhole : Spells (.token .roundOpen :: (row ++ [.token .roundClose]))
      (['('] ++ (inner.text ++ [')'])) behind :=
    (hspells.append hlast).word hopen (Token.ne_name rfl)
  exact ⟨_, hwhole, .ofAtom (.paren
    (hderives.chain_of_tightness inner.tightness_le inner.one_le_tightness (by decide)))⟩

theorem printed_call {n : String} {arguments : ArgTree Expr}
    (hform : WellFormed grid (.call n arguments))
    (hreads : ∀ e ∈ arguments.expressions, Reads grid e.text e.unfolded) (behind : List Char) :
    Printed grid (.call n arguments) behind := by
  obtain ⟨hclosed, pieces, htext, hspelled, hderives, hvalue⟩ := exists_pieces hform.2 hreads
  refine ⟨[.call n (argumentsText arguments)], ?_, .ofAtom ?_⟩
  · rw [text, List.append_assoc]
    exact .callWord hform.1 hclosed
  · rw [unfolded, ← hvalue]
    exact .call htext hspelled hderives

/-- A target that is no number is printed in front of a member. -/
theorem spells_target {target : Expr} (hholds : Holds 8 target)
    (hnumber : ∀ n, target ≠ .literal (.number n))
    (h : ∀ {behind}, target.PartedFrom behind → Printed grid target behind) (behind : List Char) :
    ∃ row, Spells row target.text ('.' :: behind) ∧ Derives grid .target row target.unfolded := by
  have htight := hholds.tightness_eq hnumber
  have hparted : target.PartedFrom ('.' :: behind) := by
    intro c hc
    cases hc
    exact .inr ⟨rfl, htight, hnumber⟩
  obtain ⟨row, hspells, hderives⟩ := h hparted
  rw [htight] at hderives
  exact ⟨row, hspells, hderives⟩

theorem made_dot (behind : List Char) : Lexeme.Made ['.'] .dot behind :=
  Lexeme.made_mark (by decide) behind

theorem printed_member {target : Expr} {n : String}
    (hform : WellFormed grid (.member target n)) (hwritable : Writable (.member target n))
    (h : ∀ {behind}, target.PartedFrom behind → Printed grid target behind) {behind : List Char}
    (hbehind : (member target n).PartedFrom behind) : Printed grid (.member target n) behind := by
  obtain ⟨row, hspells, hderives⟩ := spells_target hform.2 hwritable h (n.toList ++ behind)
  have hname := Spells.nameWord hform.1 hbehind.isStop_or
  exact ⟨_, hspells.append (hname.word (made_dot _) (Token.ne_name rfl)), .member hderives⟩

theorem printed_memberCall {target : Expr} {n : String} {arguments : ArgTree Expr}
    (hform : WellFormed grid (.memberCall target n arguments))
    (hwritable : Writable (.memberCall target n arguments))
    (h : ∀ {behind}, target.PartedFrom behind → Printed grid target behind)
    (hreads : ∀ e ∈ arguments.expressions, Reads grid e.text e.unfolded) (behind : List Char) :
    Printed grid (.memberCall target n arguments) behind := by
  obtain ⟨hclosed, pieces, htext, hspelled, hpieces, hvalue⟩ := exists_pieces hform.2.2 hreads
  obtain ⟨row, hspells, hderives⟩ := spells_target hform.2.1 hwritable h
    ((n.toList ++ '(' :: (argumentsText arguments ++ [')'])) ++ behind)
  have hcall : Spells [.call n (argumentsText arguments)]
      (n.toList ++ '(' :: (argumentsText arguments ++ [')'])) behind :=
    .callWord hform.1 hclosed
  have hdotted : Spells [.token .dot, .call n (argumentsText arguments)]
      (['.'] ++ (n.toList ++ '(' :: (argumentsText arguments ++ [')']))) behind :=
    hcall.word (made_dot _) (Token.ne_name rfl)
  refine ⟨row ++ [.token .dot, .call n (argumentsText arguments)], ?_, ?_⟩
  · simp only [text, List.append_assoc]
    exact hspells.append hdotted
  · rw [unfolded, ← hvalue]
    exact .memberCall hderives htext hspelled hpieces

theorem printed_unary {op : UnaryOp} {operand : Expr}
    (hform : WellFormed grid (.unary op operand)) (hstarts : Starts operand.text)
    (h : ∀ {behind}, operand.PartedFrom behind → Printed grid operand behind) {behind : List Char}
    (hbehind : Stops behind) : Printed grid (.unary op operand) behind := by
  obtain ⟨row, hspells, hderives⟩ := h (partedFrom_of_stops hbehind operand)
  have htight := Holds.le_tightness hform (Nat.le_refl 7)
  have hoperand := hderives.operand_of_tightness operand.tightness_le htight
  have hname : op.token.isName = false := by cases op <;> rfl
  exact ⟨_, hspells.word (made_unary op (hstarts.append behind)) (Token.ne_name hname),
    .unary hoperand⟩

theorem stops_symbol (op : BinaryOp) (behind : List Char) :
    Stops (op.symbol.toList ++ behind) := by
  cases op <;> exact stops_cons (by decide +kernel) _

theorem printed_binary {op : BinaryOp} {left right : Expr}
    (hform : WellFormed grid (.binary op left right)) (hstarts : Starts right.text)
    (hleft : ∀ {behind}, left.PartedFrom behind → Printed grid left behind)
    (hright : ∀ {behind}, right.PartedFrom behind → Printed grid right behind)
    {behind : List Char} (hbehind : Stops behind) :
    Printed grid (.binary op left right) behind := by
  have hsix : op.precedence ≤ 6 := by cases op <;> decide
  have hstops : Stops ((op.symbol.toList ++ right.text) ++ behind) := by
    rw [List.append_assoc]
    exact stops_symbol op _
  obtain ⟨first, hfirst, hderives⟩ := hleft (partedFrom_of_stops hstops left)
  obtain ⟨second, hsecond, hderives'⟩ := hright (partedFrom_of_stops hbehind right)
  have hchain := hderives.chain_of_tightness left.tightness_le
    (hform.1.le_tightness (by omega)) (by omega)
  have hchain' := hderives'.chain_of_tightness right.tightness_le
    (hform.2.le_tightness (by omega)) (by omega)
  refine ⟨first ++ .token (.operator op) :: second, ?_, ?_⟩
  · rw [text, List.append_assoc]
    exact hfirst.append
      (hsecond.word (made_symbol op (hstarts.append behind)) (Token.ne_name rfl))
  · have hcategory : Category.ofTightness (binary op left right).tightness =
        .chain op.precedence := by
      rw [tightness, Category.ofTightness, if_neg (by omega), if_neg (by omega)]
    rw [hcategory]
    exact .binary hchain hchain'

theorem reads_of_printed {e : Expr}
    (h : ∀ {behind}, e.PartedFrom behind → Printed grid e behind) :
    Reads grid e.text e.unfolded := by
  obtain ⟨items, hspells, hderives⟩ := h (partedFrom_of_stops stops_nil e)
  exact ⟨items, ⟨e.text, [], (List.append_nil _).symm, rfl, hspells⟩,
    hderives.chain_of_tightness e.tightness_le e.one_le_tightness (by decide)⟩

/-- A **well-formed expression of writable nodes** is printed in front of whatever it is parted
from. -/
theorem printed_of_everywhere {e : Expr} (hform : e.Everywhere (WellFormed grid))
    (hwritable : e.Everywhere Writable) {behind : List Char} (hbehind : e.PartedFrom behind) :
    Printed grid e behind := by
  induction e generalizing behind with
  | literal value => exact printed_literal hwritable.self hbehind
  | name n => exact printed_of_isName rfl hform.self.1 rfl hform.self.2 hbehind
  | field n =>
    exact printed_of_made (Lexeme.made_fieldText hwritable.self behind) (Token.ne_name rfl) rfl
      .field
  | currentRow =>
    have hmade : Lexeme.Made ['#'] .hash behind :=
      Lexeme.made_mark (by decide) _
    exact printed_of_made hmade (Token.ne_name rfl) rfl .hash
  | cell c =>
    obtain ⟨n, hn⟩ := hform.self
    exact printed_of_isName String.toList_ofList.symm (isName_cell c) rfl (standsFor_cell hn)
      hbehind
  | sequence items ih =>
    rw [everywhere_sequence] at hform hwritable
    exact printed_sequence
      (fun item hitem => ih item hitem (hform.2 item hitem) (hwritable.2 item hitem)) behind
  | paren inner ih =>
    rw [everywhere_paren] at hform hwritable
    exact printed_paren (ih hform.2 hwritable.2)
  | call function arguments ih =>
    rw [everywhere_call] at hform hwritable
    exact printed_call hform.1
      (fun e he => reads_of_printed (ih e he (hform.2 e he) (hwritable.2 e he))) behind
  | member target n ih =>
    rw [everywhere_member] at hform hwritable
    exact printed_member hform.1 hwritable.1 (ih hform.2 hwritable.2) hbehind
  | memberCall target n arguments ih iharguments =>
    rw [everywhere_memberCall] at hform hwritable
    exact printed_memberCall hform.1 hwritable.1 (ih hform.2.1 hwritable.2.1)
      (fun e he => reads_of_printed
        (iharguments e he (hform.2.2 e he) (hwritable.2.2 e he))) behind
  | unary op operand ih =>
    rw [everywhere_unary] at hform hwritable
    have hseven : (unary op operand).tightness ≠ 8 := by simp [tightness]
    exact printed_unary hform.1 (starts_text hform.2 hwritable.2) (ih hform.2 hwritable.2)
      (hbehind.stops hseven)
  | binary op left right ihl ihr =>
    rw [everywhere_binary] at hform hwritable
    have hsix : (binary op left right).tightness ≠ 8 := by
      cases op <;> simp [tightness, BinaryOp.precedence]
    exact printed_binary hform.1 (starts_text hform.2.2 hwritable.2.2)
      (ihl hform.2.1 hwritable.2.1) (ihr hform.2.2 hwritable.2.2) (hbehind.stops hsix)

/-- The text of such an expression **reads as its unfolded form**. -/
theorem reads_text {e : Expr} (hform : e.Everywhere (WellFormed grid))
    (hwritable : e.Everywhere Writable) : Reads grid e.text e.unfolded :=
  reads_of_printed (printed_of_everywhere hform hwritable)

end Printed

end Expr

end GridFormula
