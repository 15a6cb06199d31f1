/-!
# Scan states

Argument text is split without being parsed: a scan goes through it character by character and
keeps track of what hides separators. A quotation hides everything up to its closing mark, a
bracketed group everything up to its closing bracket, and a backslash hides the next character.
Inside a group only brackets of its own kind count; quotations and backslashes keep their meaning.

The scan is an automaton. Its *top* state is the one in which nothing is hidden.

## Main definitions

* `Bracket`: the three kinds of brackets.
* `Scan.State`, `Scan.State.step`: the automaton.
* `Scan.State.run`: the state after a text.
* `Scan.Complete`: the texts after which a scan that began at the top is at the top again.
-/

namespace GridFormula

/-- The kinds of **brackets** that hide what stands between them. -/
inductive Bracket where
  /-- Parentheses. -/
  | round
  /-- Square brackets. -/
  | square
  /-- Braces. -/
  | curly
deriving DecidableEq

namespace Bracket

/-- The opening bracket. -/
def opener : Bracket → Char
  | .round => '('
  | .square => '['
  | .curly => '\x7b'

/-- The closing bracket. -/
def closer : Bracket → Char
  | .round => ')'
  | .square => ']'
  | .curly => '\x7d'

/-- The kind that a bracket opens. -/
def ofOpener? (c : Char) : Option Bracket :=
  if c = '(' then some .round
  else if c = '[' then some .square
  else if c = '\x7b' then some .curly
  else none

end Bracket

/-- Whether `c` begins a quotation. -/
def isQuote (c : Char) : Bool := c = '"' || c = '\''

/-- Whether `c` is a bracket. -/
def isBracket (c : Char) : Bool :=
  c = '(' || c = ')' || c = '[' || c = ']' || c = '\x7b' || c = '\x7d'

/-- Whether `c` is **plain**: no backslash, no quotation mark and no bracket. -/
def isPlain (c : Char) : Bool := c ≠ '\\' && !isQuote c && !isBracket c

namespace Scan

/-- An open group: its kind, and how many brackets of that kind have been opened inside it and
not closed. -/
structure Group where
  /-- The kind of the bracket that opened the group. -/
  bracket : Bracket
  /-- The number of open brackets of that kind inside. -/
  inner : Nat
deriving DecidableEq

/-- The **state** of a scan: what hides the next character. -/
structure State where
  /-- The open group. -/
  group : Option Group := none
  /-- The mark of the open quotation. -/
  quote : Option Char := none
  /-- Whether the last character was a backslash that hides the next one. -/
  escaped : Bool := false
deriving DecidableEq

namespace State

/-- The **top** state: nothing is hidden. -/
def top : State := ⟨none, none, false⟩

/-- The state behind a bracket that opens a group. -/
def inside (bracket : Bracket) : State := ⟨some ⟨bracket, 0⟩, none, false⟩

/-- Whether nothing is hidden. -/
def isTop (s : State) : Bool := s.group.isNone && s.quote.isNone && !s.escaped

/-- The open group behind the character `c`, which is neither hidden nor a quotation mark. -/
def stepGroup (c : Char) : Option Group → Option Group
  | none => (Bracket.ofOpener? c).map (⟨·, 0⟩)
  | some g =>
    if c = g.bracket.opener then some ⟨g.bracket, g.inner + 1⟩
    else if c = g.bracket.closer then
      if g.inner = 0 then none else some ⟨g.bracket, g.inner - 1⟩
    else some g

/-- The state behind the character `c`. -/
def step (s : State) (c : Char) : State :=
  if s.escaped then ⟨s.group, s.quote, false⟩
  else if c = '\\' then ⟨s.group, s.quote, true⟩
  else
    match s.quote with
    | some mark => ⟨s.group, if c = mark then none else some mark, false⟩
    | none =>
      if isQuote c then ⟨s.group, some c, false⟩
      else ⟨stepGroup c s.group, none, false⟩

/-- The state behind a text. -/
def run (s : State) (text : List Char) : State := text.foldl step s

@[simp] theorem run_nil (s : State) : s.run [] = s := rfl

@[simp] theorem run_cons (s : State) (c : Char) (rest : List Char) :
    s.run (c :: rest) = (s.step c).run rest := rfl

@[simp] theorem run_append (s : State) (first second : List Char) :
    s.run (first ++ second) = (s.run first).run second := by
  simp [run, List.foldl_append]

theorem isTop_iff (s : State) : s.isTop = true ↔ s = top := by
  obtain ⟨group, quote, escaped⟩ := s
  cases group <;> cases quote <;> cases escaped <;> simp [isTop, top]

@[simp] theorem isTop_top : top.isTop = true := rfl

theorem stepGroup_of_not_bracket {c : Char} (h : isBracket c = false) (group : Option Group) :
    stepGroup c group = group := by
  simp only [isBracket, Bool.or_eq_false_iff, decide_eq_false_iff_not] at h
  obtain ⟨⟨⟨⟨⟨hro, hrc⟩, hso⟩, hsc⟩, hco⟩, hcc⟩ := h
  match group with
  | none => simp [stepGroup, Bracket.ofOpener?, hro, hso, hco]
  | some ⟨.round, _⟩ => simp [stepGroup, Bracket.opener, Bracket.closer, hro, hrc]
  | some ⟨.square, _⟩ => simp [stepGroup, Bracket.opener, Bracket.closer, hso, hsc]
  | some ⟨.curly, _⟩ => simp [stepGroup, Bracket.opener, Bracket.closer, hco, hcc]

/-- A plain character **changes nothing** outside a quotation. -/
theorem step_of_isPlain {c : Char} (h : isPlain c = true) (group : Option Group) :
    step ⟨group, none, false⟩ c = ⟨group, none, false⟩ := by
  simp only [isPlain, Bool.and_eq_true, decide_eq_true_eq, Bool.not_eq_true'] at h
  obtain ⟨⟨hslash, hquote⟩, hbracket⟩ := h
  simp [step, hslash, hquote, stepGroup_of_not_bracket hbracket]

/-- Inside a group a character leaves the group open, or it is the bracket that closes it. -/
theorem step_of_group {s : State} {g : Group} (hs : s.group = some g) (c : Char) :
    (∃ g', (s.step c).group = some g' ∧ g'.bracket = g.bracket) ∨
      (s.step c = top ∧ c = g.bracket.closer) := by
  unfold step
  rw [hs]
  split
  · exact .inl ⟨g, rfl, rfl⟩
  · split
    · exact .inl ⟨g, rfl, rfl⟩
    · split
      · exact .inl ⟨g, rfl, rfl⟩
      · split
        · exact .inl ⟨g, rfl, rfl⟩
        · unfold stepGroup
          dsimp only
          split
          · exact .inl ⟨_, rfl, rfl⟩
          · split
            · next hcloser =>
              split
              · exact .inr ⟨rfl, hcloser⟩
              · exact .inl ⟨_, rfl, rfl⟩
            · exact .inl ⟨g, rfl, rfl⟩

end State

/-- A text is **complete** when a scan that begins at the top is at the top again behind it: every
quotation and every group is closed, and no backslash stands at the end. -/
def Complete (text : List Char) : Prop := State.top.run text = State.top

instance (text : List Char) : Decidable (Complete text) :=
  inferInstanceAs (Decidable (_ = _))

end Scan

end GridFormula
