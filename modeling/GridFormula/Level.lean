/-!
# Separator levels

Arguments are grouped by three separators, from the coarsest to the finest: `;`, `,` and `:`.
Above them stands the level of a whole text, which has no separator.

## Main definitions

* `Level`: the levels.
* `Level.next?`, `Level.deeper`: the levels below one.
* `Level.separator?`, `Level.ofSeparator?`: levels and their separators.
-/

namespace GridFormula

/-- A **level** of argument groups. -/
inductive Level where
  /-- The level of a whole text. -/
  | top
  /-- Groups separated by `;`. -/
  | semicolon
  /-- Arguments separated by `,`. -/
  | comma
  /-- Parts separated by `:`. -/
  | colon
deriving DecidableEq

namespace Level

/-- All levels, the coarsest first. -/
def all : List Level := [.top, .semicolon, .comma, .colon]

/-- The place of a level among all of them; a finer level has a greater depth. -/
def depth : Level → Nat
  | .top => 0
  | .semicolon => 1
  | .comma => 2
  | .colon => 3

/-- The levels finer than this one, the coarsest first. -/
def deeper : Level → List Level
  | .top => [.semicolon, .comma, .colon]
  | .semicolon => [.comma, .colon]
  | .comma => [.colon]
  | .colon => []

/-- The next finer level. -/
def next? (level : Level) : Option Level := level.deeper.head?

/-- Whether no level is finer; text at this level is never split again. -/
def isDeepest (level : Level) : Bool := level.deeper.isEmpty

/-- Whether `level` is coarser than `other`. -/
def coarser (level other : Level) : Bool := level.depth < other.depth

/-- The separator of a level. -/
def separator? : Level → Option Char
  | .top => none
  | .semicolon => some ';'
  | .comma => some ','
  | .colon => some ':'

/-- The level of a separator. -/
def ofSeparator? (c : Char) : Option Level :=
  all.find? fun level => level.separator? = some c

/-- The name of a level's kind of group: its separator between apostrophes. -/
def groupName (level : Level) : String :=
  match level.separator? with
  | some c => String.ofList ['\'', c, '\'']
  | none => "none"

/-- The levels finer than one are those below it in depth. -/
theorem mem_deeper_iff (level other : Level) :
    other ∈ level.deeper ↔ level.depth < other.depth := by
  cases level <;> cases other <;> decide

/-- A separator names its level. -/
theorem ofSeparator?_eq_some_iff (c : Char) (level : Level) :
    ofSeparator? c = some level ↔ level.separator? = some c := by
  constructor
  · intro h
    simpa using List.find?_some h
  · intro h
    cases level <;> simp [separator?] at h <;> subst h <;> decide

/-- A separator takes one byte. -/
theorem utf8Size_of_separator? {level : Level} {c : Char} (h : level.separator? = some c) :
    c.utf8Size = 1 := by
  cases level <;> cases h <;> rfl

end Level

end GridFormula
