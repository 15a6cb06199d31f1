import GridFormula.Proofs.Lookahead
import GridFormula.Proofs.Reading

/-!
# Climbing precedences

A chain of operands can be read in one go: behind an operand, an operator is taken if it binds
tightly enough, and what stands at its right is read in the same way with a higher bound. The
program that does so holds one token, reads the next one when it takes an operator, and goes round
once for each operator of its own bound.

It gives the expression that is put together from a flat chain, and each of its rounds takes an
operator off the text, so it never goes round for ever. The invariant of its loop is that the
operators taken so far are joined around all of the chain, as tightly as any operator that comes
next.

## Main definitions

* `Expr.Parser`: the programs that read an expression from the token that they hold.
* `Expr.Tracks`: a program that does what a reader of streams does.
* `Expr.climb`: the program.

## Main results

* `Expr.tracks_climb`: reading a chain in this way never traps, and gives what reading it flat
  gives.
-/

namespace GridFormula

open Text (byteLength)
open Cursor (nextToken)
open Run (answer)
open TokenStream (Lexed Takes)

/-- The operator that a program sees next. -/
def Ahead.operator? (ahead : Ahead) : Option BinaryOp :=
  match ahead.token with
  | some (.operator op) => some op
  | _ => none

theorem Ahead.operator?_eq_some_iff {ahead : Ahead} {op : BinaryOp} :
    ahead.operator? = some op ↔ ahead.token = some (.operator op) := by
  unfold operator?
  split
  · next other heq => rw [heq, Option.some.injEq, Option.some.injEq, Token.operator.injEq]
  · next hother =>
    exact ⟨fun h => (nomatch h), fun h => absurd h (hother op)⟩

namespace Expr

/-- A **parser** reads from the token that it holds, and holds another one when it is done. -/
abbrev Parser (α : Type) := Ahead → Run (α × Ahead)

/-- What a parser gives where a reader of streams gives some outcome: it sees the head of the stream
that is left, and refuses one that is no token. -/
def arrive {α : Type} (outcome : Except Error (α × TokenStream)) : Except Error (α × Ahead) := do
  let (a, s) ← outcome
  let ahead ← s.look
  pure (a, ahead)

/-- A parser **tracks** a reader of streams when on the streams of a text it does what the reader
does, without a trap. -/
def Tracks {α : Type} (input : List Char) (parser : Parser α)
    (reader : TokenStream → Except Error (α × TokenStream)) : Prop :=
  ∀ ⦃s ahead⦄, Lexed input s → s.look = .ok ahead → parser ahead = answer (arrive (reader s))

/-- The bytes that are left from the token on that a parser holds. -/
def left {α : Type} (input : List Char) (s : α × Ahead) : Nat :=
  byteLength input - s.2.span.start

/-! ### The program -/

/-- One round: the next operator, if it binds as tightly as `limit`, with what `tighter` reads at
its right. -/
def climbRound (input : List Char) (limit : Nat)
    (tighter : (op : BinaryOp) → limit ≤ op.precedence → Parser Expr) (s : Expr × Ahead) :
    Run ((Expr × Ahead) ⊕ (Expr × Ahead)) :=
  match s.2.operator? with
  | none => pure (.inr s)
  | some op =>
    if h : limit ≤ op.precedence then do
      let ahead ← nextToken input s.2.span.stop
      let (right, ahead) ← tighter op h ahead
      pure (.inl (.binary op s.1 right, ahead))
    else pure (.inr s)

/-- Reads operands with operators between them that bind as tightly as `limit`. -/
def climb (input : List Char) (operand : Parser Expr) (limit : Nat) : Parser Expr := fun ahead => do
  let first ← operand ahead
  Run.loop (left input)
    (climbRound input limit fun op _ => climb input operand (op.precedence + 1)) first
termination_by 7 - limit
decreasing_by
  have hop := op.precedence_mem_precedences
  simp only [BinaryOp.precedences, List.mem_cons, List.not_mem_nil, or_false] at hop
  omega

/-! ### Chains in parts -/

/-- What a parser relies on in a reader of one operand. -/
structure Steady (operand : Reader) : Prop where
  /-- A lexeme that is no token is refused. -/
  broken : ∀ error, operand (.broken error) = .error (.badSyntax error)
  /-- What is read is taken off the stream, and it is not nothing. -/
  takes : ∀ {s e last}, operand s = .ok (e, last) → ∃ items, items ≠ [] ∧ s.Takes items last

/-- The operators of a chain that stand at the head of a stream, each with its operand, up to some
point. -/
inductive Operated (operand : Reader) : TokenStream → Operations → TokenStream → Prop
  /-- No operator. -/
  | nil (s : TokenStream) : Operated operand s [] s
  /-- An operator with its operand, and more of them. -/
  | cons {op : BinaryOp} {span : Span} {rest behind last : TokenStream} {e : Expr}
      {others : Operations} : operand rest = .ok (e, behind) → Operated operand behind others last →
        Operated operand (.token (.operator op) span rest) ((op, e) :: others) last

section Chains

variable {operand : Reader} {s middle last : TokenStream} {first more : Operations}

theorem Operated.append (hfirst : Operated operand s first middle)
    (hmore : Operated operand middle more last) : Operated operand s (first ++ more) last := by
  induction hfirst with
  | nil => exact hmore
  | cons hread _ ih => exact .cons hread (ih hmore)

theorem Operated.takes (h : Operated operand s first last) (hsteady : Steady operand) :
    ∃ items, s.Takes items last := by
  induction h with
  | nil s => exact ⟨[], .nil s⟩
  | cons hread _ ih =>
    obtain ⟨front, -, hfront⟩ := hsteady.takes hread
    obtain ⟨items, hitems⟩ := ih
    exact ⟨_, .token (hfront.append hitems)⟩

theorem size_of_takes {items : List Item} (h : s.Takes items last) :
    s.size = items.length + last.size := by
  induction h with
  | nil => exact (Nat.zero_add _).symm
  | token _ ih | call _ ih =>
    simp only [TokenStream.size, List.length_cons, ih]
    omega

theorem Steady.advances (h : Steady operand) : Advances operand := by
  intro s e last hread
  obtain ⟨items, hne, htakes⟩ := h.takes hread
  have hpos := List.length_pos_iff.2 hne
  rw [size_of_takes htakes]
  omega

/-- The operators of a chain are read in parts. -/
theorem Operated.operations_eq (h : Operated operand s first last) (hsteady : Steady operand) :
    operations operand s = (do
      let (more, behind) ← operations operand last
      pure (first ++ more, behind)) := by
  induction h with
  | nil s => cases operations operand s <;> rfl
  | cons hread _ ih =>
    rw [operations_cons hsteady.advances, hread]
    simp only [bind, Except.bind]
    rw [ih]
    cases operations operand _ <;> rfl

/-- Where no operator comes next, a chain ends. -/
theorem operations_of_ne (h : ∀ op span rest, s ≠ .token (.operator op) span rest) :
    operations operand s = .ok ([], s) := by
  rw [operations]
  exact fun op span rest heq => h op span rest heq

/-- Where an operand begins, a chain fails in the same way whether or not some of it has been read
before. -/
theorem arrive_chain_of_error {op : BinaryOp} {span : Span} {behind rest : TokenStream} {e : Expr}
    {error : Error} (hsteady : Steady operand) (hfirst : operand s = .ok (e, behind))
    (hdone : Operated operand behind first (.token (.operator op) span rest))
    (herror : arrive (chain operand rest) = .error error) :
    arrive (chain operand s) = .error error := by
  rw [chain, hfirst]
  simp only [bind, Except.bind]
  rw [hdone.operations_eq hsteady, operations_cons hsteady.advances]
  rw [chain] at herror
  cases hoperand : operand rest with
  | error => rw [hoperand] at herror; exact herror
  | ok read =>
    obtain ⟨next, behind'⟩ := read
    rw [hoperand] at herror
    simp only [bind, Except.bind] at herror ⊢
    cases hmore : operations operand behind' with
    | error => rw [hmore] at herror; exact herror
    | ok read =>
      obtain ⟨more, last⟩ := read
      rw [hmore] at herror
      simp only [arrive, pure, Except.pure, bind, Except.bind] at herror ⊢
      cases hlook : last.look with
      | error => rw [hlook] at herror; exact herror
      | ok ahead => rw [hlook] at herror; cases herror

/-- Where an operand can begin, a chain can. -/
theorem operated_of_operations {others : Operations} (hsteady : Steady operand)
    (h : operations operand s = .ok (others, last)) : Operated operand s others last := by
  fun_induction operations operand s generalizing others last with
  | case1 => cases h
  | case2 => cases h
  | case3 op span rest e behind hread hlt others' last' hrec ih =>
    cases h
    exact .cons hread (ih hrec)
  | case4 op span rest e behind hread hlt =>
    exact absurd (Nat.lt_succ_of_lt (hsteady.advances hread)) hlt
  | case5 =>
    cases h
    exact .nil _

/-- Chains are **steady** when operands are. -/
theorem Steady.chain (hsteady : Steady operand) : Steady (chain operand) where
  broken error := by
    rw [Expr.chain, hsteady.broken]
    rfl
  takes h := by
    obtain ⟨⟨first, behind⟩, hfirst, h⟩ := exists_of_bind h
    obtain ⟨⟨others, last⟩, hothers, h⟩ := exists_of_bind h
    cases h
    obtain ⟨front, hne, hfront⟩ := hsteady.takes hfirst
    obtain ⟨items, hitems⟩ := (operated_of_operations hsteady hothers).takes hsteady
    exact ⟨front ++ items, List.append_ne_nil_of_left_ne_nil hne items, hfront.append hitems⟩

end Chains

/-! ### Climbing -/

theorem Joins.mono {p q : Nat} (hle : p ≤ q) {first e : Expr} {others : Operations}
    (h : Joins q first others e) : Joins p first others e := by
  induction hle with
  | refl => exact h
  | step _ ih => exact ih h.ofTighter

/-- What a parser has **climbed** over: it has failed where the chain fails, or it has read an
operand and some operators that bind as tightly as `limit`, up to one that does not. -/
inductive Climbed (operand : Reader) (limit : Nat) (s : TokenStream) (result : Run (Expr × Ahead)) :
    Prop
  /-- The chain fails. -/
  | failed {error : Error} : result = answer (.error error) →
      arrive (chain operand s) = .error error → Climbed operand limit s result
  /-- Some of the chain is read. -/
  | arrived {first e : Expr} {behind last : TokenStream} {others : Operations} {ahead : Ahead} :
      result = answer (.ok (e, ahead)) → operand s = .ok (first, behind) →
      Operated operand behind others last → last.look = .ok ahead → Joins limit first others e →
      (∀ op, ahead.operator? = some op → op.precedence < limit) → Climbed operand limit s result

section Climbing

variable {input : List Char} {parser : Parser Expr} {operand : Reader}

theorem eq_token_of_operator? {s : TokenStream} {ahead : Ahead} {op : BinaryOp}
    (hlook : s.look = .ok ahead) (hop : ahead.operator? = some op) :
    ∃ rest, s = .token (.operator op) ahead.span rest :=
  TokenStream.eq_token_of_look hlook (Ahead.operator?_eq_some_iff.1 hop) rfl

section Rounds

variable {limit : Nat} {tighter : (op : BinaryOp) → limit ≤ op.precedence → Parser Expr}
  {ahead : Ahead} {op : BinaryOp}

/-- Where no operator comes next that binds tightly enough, the loop is over. -/
theorem climbRound_of_loose (e : Expr)
    (h : ∀ op, ahead.operator? = some op → op.precedence < limit) :
    climbRound input limit tighter (e, ahead) = answer (.ok (.inr (e, ahead))) := by
  rw [climbRound]
  split
  · rfl
  · next op hop => exact dif_neg (Nat.not_le.2 (h op hop))

theorem climbRound_of_tight (e : Expr) (hop : ahead.operator? = some op)
    (htight : limit ≤ op.precedence) :
    climbRound input limit tighter (e, ahead) = (do
      let ahead ← nextToken input ahead.span.stop
      let (right, ahead) ← tighter op htight ahead
      pure (.inl (.binary op e right, ahead))) := by
  rw [climbRound, hop]
  exact dif_pos htight

end Rounds

/-- The loop keeps that what it has read is joined, as tightly as the operator that comes next. -/
theorem climbed_loop (hsteady : Steady operand) {limit : Nat}
    {tighter : (op : BinaryOp) → limit ≤ op.precedence → Parser Expr}
    (htighter : ∀ op h {s ahead}, Lexed input s → s.look = .ok ahead →
      Climbed operand (op.precedence + 1) s (tighter op h ahead))
    {s behind middle : TokenStream} {first e : Expr} {others : Operations} {ahead : Ahead}
    (hfirst : operand s = .ok (first, behind)) (hdone : Operated operand behind others middle)
    (hmiddle : Lexed input middle) (hlook : middle.look = .ok ahead) {bound : Nat}
    (hjoins : Joins bound first others e) (hlimit : limit ≤ bound)
    (hbound : ∀ op, ahead.operator? = some op → op.precedence ≤ bound) :
    Climbed operand limit s
      (Run.loop (left input) (climbRound input limit tighter) (e, ahead)) := by
  induction hleft : left input (e, ahead) using Nat.strongRecOn
    generalizing middle e others ahead bound with
  | ind n ih =>
    by_cases hloose : ∀ op, ahead.operator? = some op → op.precedence < limit
    · exact .arrived (Run.loop_of_done (climbRound_of_loose e hloose)) hfirst hdone hlook
        (hjoins.mono hlimit) hloose
    · push Not at hloose
      obtain ⟨op, hop, htight⟩ := hloose
      obtain ⟨rest, rfl⟩ := eq_token_of_operator? hlook hop
      have hround := @climbRound_of_tight input limit tighter _ _ e hop htight
      have hlexed := hmiddle
      cases hmiddle with
      | token _ _ hnext hrest =>
        rw [hnext] at hround
        cases hrestLook : rest.look with
        | error error =>
          obtain ⟨error, rfl, rfl⟩ := TokenStream.eq_broken_of_look hrestLook
          refine .failed (Run.loop_of_error hround) ?_
          refine arrive_chain_of_error hsteady hfirst hdone ?_
          rw [chain, hsteady.broken]
          rfl
        | ok next =>
          rw [hrestLook, Run.answer_ok_bind] at hround
          cases htighter op htight hrest hrestLook with
          | failed hresult herror =>
            rw [hresult, Run.answer_error_bind] at hround
            exact .failed (Run.loop_of_error hround)
              (arrive_chain_of_error hsteady hfirst hdone herror)
          | arrived hresult hread hmore hlast hright hbelow =>
            rw [hresult, Run.answer_ok_bind] at hround
            obtain ⟨front, -, hfront⟩ := hsteady.takes hread
            obtain ⟨items, hitems⟩ := hmore.takes hsteady
            have htakes := hfront.append hitems
            have hlt := hlexed.left_lt (.token htakes) (List.cons_ne_nil _ _)
            rw [← TokenStream.start_of_look hlast] at hlt
            rw [Run.loop_of_next hround hlt]
            have hleftJoins := hjoins.mono (hbound op hop)
            exact ih _ (hleft ▸ hlt) (hdone.append (.cons hread hmore)) (hrest.of_takes htakes).1
              hlast (hleftJoins.binary hright) htight
              (fun op' hop' => Nat.le_of_lt_succ (hbelow op' hop')) rfl

theorem Joins.nil (p : Nat) (e : Expr) : Joins p e [] e := by
  unfold Joins joinLevels
  induction precedencesFrom p with
  | nil => rfl
  | cons _ _ ih => exact ih

theorem precedence_le (op : BinaryOp) : op.precedence ≤ 6 := by
  cases op <;> decide

/-- Reading by precedence **climbs over** the chain at the head of a stream. -/
theorem climbed_climb (hsteady : Steady operand) (htracks : Tracks input parser operand)
    (limit : Nat) {s : TokenStream} {ahead : Ahead} (hs : Lexed input s)
    (hlook : s.look = .ok ahead) : Climbed operand limit s (climb input parser limit ahead) := by
  induction hroom : 7 - limit using Nat.strongRecOn generalizing limit s ahead with
  | ind room ih =>
    have hoperand := htracks hs hlook
    rw [climb, hoperand]
    cases hread : operand s with
    | error error =>
      refine .failed rfl ?_
      rw [chain, hread]
      rfl
    | ok read =>
      obtain ⟨first, behind⟩ := read
      cases hbehind : behind.look with
      | error error =>
        obtain ⟨e, rfl, rfl⟩ := TokenStream.eq_broken_of_look hbehind
        refine .failed rfl ?_
        rw [chain, hread]
        simp only [bind, Except.bind]
        rw [operations_of_ne (fun _ _ _ heq => by cases heq)]
        rfl
      | ok next =>
        have harrive : arrive (.ok (first, behind)) = .ok (first, next) := by
          simp only [arrive, bind, Except.bind, hbehind]
          rfl
        rw [harrive, Run.answer_ok_bind]
        obtain ⟨items, -, htakes⟩ := hsteady.takes hread
        refine climbed_loop hsteady (fun op hle s ahead hs hlook => ?_) hread (.nil behind)
          (hs.of_takes htakes).1 hbehind (.nil (max limit 7) first) (Nat.le_max_left ..) ?_
        · have hop := precedence_le op
          exact ih (7 - (op.precedence + 1)) (by omega) _ hs hlook rfl
        · intro op _
          have hop := precedence_le op
          omega

/-- Reading a chain by precedence **never traps**, and gives what reading it flat gives. -/
theorem tracks_climb (hsteady : Steady operand) (htracks : Tracks input parser operand) :
    Tracks input (climb input parser 0) (chain operand) := by
  intro s ahead hs hlook
  cases climbed_climb hsteady htracks 0 hs hlook with
  | failed hresult herror => rw [hresult, herror]
  | @arrived first e behind last others next hresult hread hops hlast hjoins hbelow =>
    have hnone : operations operand last = .ok ([], last) := by
      refine operations_of_ne ?_
      rintro op span rest rfl
      cases hlast
      exact absurd (hbelow op rfl) (Nat.not_lt_zero _)
    have hassemble : assemble first others = e := hjoins.assemble_eq
    rw [hresult, chain, hread]
    simp only [bind, Except.bind]
    rw [hops.operations_eq hsteady, hnone]
    simp only [bind, Except.bind, pure, Except.pure, List.append_nil, arrive, hlast, hassemble]

/-- Nothing binds as tightly as an operand does. -/
theorem tracks_climb_tight (htracks : Tracks input parser operand) :
    Tracks input (climb input parser 7) operand := by
  intro s ahead hs hlook
  rw [climb, htracks hs hlook]
  cases arrive (operand s) with
  | error => rfl
  | ok first =>
    rw [Run.answer_ok_bind]
    refine Run.loop_of_done (climbRound_of_loose first.1 fun op _ => ?_)
    exact Nat.lt_succ_of_le (precedence_le op)

end Climbing

end Expr

end GridFormula
