import GridFormula.Expr.Leaf
import GridFormula.Expr.Progress
import GridFormula.Proofs.Outline
import GridFormula.Proofs.Spelling
import Mathlib

/-!
# Where errors point

An error of reading has a span in the text that the reader was given. Each reader records spans in
the text at hand, which may be a piece of the arguments of a call in a piece of other arguments, and
the error is moved to the right on its way out of every piece and every call. In the end its span
marks a part of the caller's text.

The invariant is that of a stream that is placed in a text: whatever its items record of positions,
the text has there what they are. Readers only go along streams, so an error they find is to blame
on a part of the text, and moving keeps that.

Positions have a largest value, and a text in memory is never longer than that.

## Main definitions

* `LeafText.span`, `LeafText.Is`: where a part of a text is, and the token that it is on its own.
* `SyntaxError.PointsInto`: errors whose span marks what they report.
* `TokenStream.Placed`: streams that are right about their text.
* `Error.Blames`, `Stays`: errors and outcomes of readers that are to blame on a text.

## Main results

* `TokenStream.placed_ofText`: the stream of a text is placed in it.
* `Expr.stays_operandAt`: readers only blame their text.
* `ArgTree.pointsInto_of_parseWith`: the errors of reading argument text point into it.
-/

namespace GridFormula

open Text (byteLength isBlank allBlank)

/-! ### Parts of a text -/

/-- The bytes of a text that a part of it takes. -/
def LeafText.span (part : LeafText) : Span :=
  ⟨part.offset, part.offset + byteLength part.text⟩

/-- A part of a text **is** a token when its characters alone are just that token. It is the end of
the text when it has none. -/
def LeafText.Is (part : LeafText) : Option Token → Prop
  | none => TokenStream.ofText part.text = .finish 0
  | some t =>
    TokenStream.ofText part.text =
      .token t ⟨0, byteLength part.text⟩ (.finish (byteLength part.text))

/-- The text **from** a byte position on is `tail`. -/
def TailAt (text : List Char) (position : Nat) (tail : List Char) : Prop :=
  ∃ before, text = before ++ tail ∧ byteLength before = position

theorem TailAt.append {text first second : List Char} {position : Nat}
    (h : TailAt text position (first ++ second)) :
    TailAt text (position + byteLength first) second := by
  obtain ⟨before, rfl, rfl⟩ := h
  exact ⟨before ++ first, (List.append_assoc ..).symm, Text.byteLength_append ..⟩

/-- What a text begins with, from a position on, is a part of it. -/
theorem TailAt.part {text first second : List Char} {position : Nat}
    (h : TailAt text position (first ++ second)) : (LeafText.mk position first).In text := by
  obtain ⟨before, rfl, rfl⟩ := h
  exact ⟨before, second, (List.append_assoc ..).symm, rfl⟩

/-- What a fault says was found: a token, or the end of the text. Many faults say nothing of it. -/
def SyntaxFault.found? : SyntaxFault → Option (Option Token)
  | .unexpectedEnd => some none
  | .unexpectedToken found => some (some found)
  | .expectedToken _ found => some found
  | .expectedMember found => some found
  | _ => none

/-- An error **points into** a text when its span marks a part of the text, between characters, and
that part is what the error says was found. -/
structure SyntaxError.PointsInto (e : SyntaxError) (text : List Char) : Prop where
  /-- The span does not end before it starts. -/
  start_le_stop : e.span.start ≤ e.span.stop
  /-- The span ends in the text. -/
  stop_le : e.span.stop ≤ byteLength text
  /-- The span is that of a part of the text, and what was found is that part. -/
  exists_part : ∃ part : LeafText, part.In text ∧ e.span = part.span ∧
    ∀ found, e.fault.found? = some found → part.Is found

theorem LeafText.In.stop_le {part : LeafText} {text : List Char} (h : part.In text) :
    part.span.stop ≤ byteLength text := by
  obtain ⟨before, behind, rfl, hoffset⟩ := h
  simp only [span, Text.byteLength_append]
  omega

/-- An error points into a text when its span is that of a **part**, which is what was found. -/
theorem SyntaxError.pointsInto_of_part {text : List Char} {part : LeafText} (h : part.In text)
    {fault : SyntaxFault} (hfound : ∀ found, fault.found? = some found → part.Is found) :
    (SyntaxError.mk fault part.span).PointsInto text :=
  ⟨Nat.le_add_right .., h.stop_le, part, h, rfl, hfound⟩

/-- Moved to where a part of a text stands, an error in the part points into the text. -/
theorem SyntaxError.PointsInto.shift {text : List Char} {piece : LeafText} (hpiece : piece.In text)
    (hlength : byteLength text ≤ maxPosition) {e : SyntaxError} (h : e.PointsInto piece.text) :
    (e.shift piece.offset).PointsInto text := by
  obtain ⟨part, ⟨before, behind, htext, hoffset⟩, hspan, hfound⟩ := h.exists_part
  have hmoved : (LeafText.mk (piece.offset + part.offset) part.text).In text :=
    hpiece.trans htext (by rw [hoffset])
  have hstop := hmoved.stop_le
  have heq : e.span.shift piece.offset =
      (LeafText.mk (piece.offset + part.offset) part.text).span := by
    rw [hspan]
    simp only [LeafText.span, Span.shift, Span.mk.injEq] at hstop ⊢
    omega
  unfold SyntaxError.shift
  rw [heq]
  exact pointsInto_of_part hmoved hfound

/-! ### Errors -/

/-- An error is to **blame** on a text: it is a syntax error and points into the text, which is no
longer than positions reach. -/
def Error.Blames (error : Error) (text : List Char) : Prop :=
  ∃ e, error = .badSyntax e ∧ (byteLength text ≤ maxPosition → e.PointsInto text)

theorem Error.blames_of_part {text : List Char} {part : LeafText} (h : part.In text)
    {fault : SyntaxFault} (hfound : ∀ found, fault.found? = some found → part.Is found) :
    (Error.ofFault fault part.span).Blames text :=
  ⟨_, rfl, fun _ => SyntaxError.pointsInto_of_part h hfound⟩

theorem Error.Blames.shift {text : List Char} {piece : LeafText} (hpiece : piece.In text)
    {error : Error} (h : error.Blames piece.text) : (error.shift piece.offset).Blames text := by
  obtain ⟨e, rfl, hpoints⟩ := h
  refine ⟨_, rfl, fun hlength => (hpoints ?_).shift hpiece hlength⟩
  have hstop := hpiece.stop_le
  simp only [LeafText.span] at hstop
  omega

/-! ### Lexemes -/

/-- What is wrong with a lexeme that is no token says nothing of a token. -/
theorem Lexeme.found?_of_reading {c : Char} {rest : List Char} {fault : SyntaxFault}
    (h : (Lexeme.ofHead c rest).reading = .error fault) : fault.found? = none := by
  have hpair : ∀ {second double token}, (pair c second double token rest).reading ≠ .error fault := by
    intro second double token h
    unfold pair at h
    split at h
    · cases h
    · split at h <;> cases h
  have hdoubled : ∀ {second token fault'}, fault'.found? = none →
      (doubled c second token fault' rest).reading = .error fault → fault.found? = none := by
    intro second token fault' hfault h
    unfold doubled at h
    split at h
    · cases h
      exact hfault
    · dsimp only at h
      split at h <;> cases h
      exact hfault
  have hquotation : ∀ {read}, (ofQuotation c read rest).reading = .error fault →
      fault.found? = none := by
    intro read h
    unfold ofQuotation at h
    dsimp only at h
    split at h <;> cases h
    rfl
  have hword : (ofWord c rest).reading = .error fault → fault.found? = none := by
    intro h
    unfold ofWord at h
    split at h
    · simp only [ofNumeral] at h
      split at h
      · split at h <;> cases h
        rfl
      · cases h
        rfl
    · split at h <;> cases h
      rfl
  unfold ofHead at h
  split at h
  all_goals first
    | exact absurd h hpair
    | exact hdoubled rfl h
    | exact hquotation h
    | exact hword h
    | (cases h; done)
    | (cases h; rfl)

/-- A word is its token also when it stands **alone**. -/
theorem LeafText.is_of_word {source behind : List Char} {t : Token}
    (h : Lexeme.Word source t behind) (offset : Nat) : (LeafText.mk offset source).Is (some t) := by
  have hmeets : Lexeme.Meets behind [] := fun c hc => by cases hc
  have hstream := TokenStream.ofTextAt_word 0 (rfl : allBlank [] = true) (h.meets hmeets)
    fun _ _ rest heq => by cases heq
  have hend : ∀ position, TokenStream.ofTextAt position [] = .finish position :=
    fun position => TokenStream.ofTextAt_of_allBlank position rfl
  rw [List.nil_append, List.append_nil, hend] at hstream
  simpa [Is, TokenStream.ofText] using hstream

/-! ### Streams -/

namespace TokenStream

/-- A stream is **placed** in a text: its items are found in the text where they say. -/
inductive Placed (text : List Char) : TokenStream → Prop
  /-- The end of the text. -/
  | finish : Placed text (.finish (byteLength text))
  /-- A lexeme that is no token. -/
  | broken {part : LeafText} {fault : SyntaxFault} : part.In text → fault.found? = none →
      Placed text (.broken ⟨fault, part.span⟩)
  /-- A token. -/
  | token {part : LeafText} {t : Token} {rest : TokenStream} : part.In text →
      part.Is (some t) → Placed text rest → Placed text (.token t part.span rest)
  /-- A call, with its opening parenthesis and its argument text. -/
  | call {part : LeafText} {name : String} {opening : Nat} {inside : List Char}
      {rest : TokenStream} : part.In text → part.Is (some (.name name)) →
      (LeafText.mk opening ['(']).In text → (LeafText.mk (opening + 1) inside).In text →
      Placed text rest → Placed text (.call name part.span opening inside rest)
  /-- A call that is never closed, from its opening parenthesis on. -/
  | openCall {part : LeafText} {name : String} {opening : Nat} {inside : List Char} :
      part.In text → part.Is (some (.name name)) → (LeafText.mk opening ['(']).In text →
      (LeafText.mk opening ('(' :: inside)).In text →
        Placed text (.openCall name part.span opening (opening + 1 + byteLength inside))

/-- The stream of the text from some position on is **placed** in the text. -/
theorem placed_ofTextAt {text tail : List Char} {position : Nat} (h : TailAt text position tail) :
    Placed text (ofTextAt position tail) := by
  induction hlength : tail.length using Nat.strongRecOn generalizing position tail with
  | ind length ih =>
    rcases Text.exists_blanks_append tail with hblank | ⟨blanks, c, rest, rfl, hblanks, hc⟩
    · rw [ofTextAt_of_allBlank _ hblank]
      obtain ⟨before, rfl, rfl⟩ := h
      rw [← Text.byteLength_append]
      exact .finish
    have hword := fun t => @word_ofHead c rest t hc
    have hfault := fun fault => @Lexeme.found?_of_reading c rest fault
    obtain ⟨happend, -⟩ := Lexeme.covers_ofHead c rest
    have hshorter := Lexeme.length_rest_lt c rest
    rw [ofTextAt_cons _ hblanks hc]
    generalize Lexeme.ofHead c rest = lexeme at *
    obtain ⟨source, reading, behind⟩ := lexeme
    rw [← happend] at h hlength hshorter
    dsimp only at *
    simp only [List.length_append] at hlength hshorter
    have hpart := h.append.part
    have hbehind := h.append.append
    unfold ofLexeme
    dsimp only
    split
    · next fault => exact .broken hpart (hfault fault rfl)
    · next name =>
      have his := LeafText.is_of_word (hword _ rfl) (position + byteLength blanks)
      split
      · exact .token hpart his (ih behind.length (by omega) hbehind rfl)
      · next opening inside hopening =>
        obtain ⟨gap, hgap, rfl⟩ := exists_gap_of_callOpening? hopening
        rw [callOpening?_gap _ hgap, Option.some.injEq, Prod.mk.injEq] at hopening
        obtain ⟨rfl, -⟩ := hopening
        have hparen : TailAt text _ (['('] ++ inside) := hbehind.append
        simp only [List.length_append, List.length_cons] at hlength
        split
        · rw [← List.append_nil (['('] ++ inside)] at hparen
          exact .openCall hpart his hbehind.append.part hparen.part
        · next arguments outside hsplit =>
          obtain rfl : inside = arguments ++ ([')'] ++ outside) :=
            Scan.eq_append_closer_of_splitAtTop (g := ⟨.round, 0⟩) rfl hsplit
          have hinside := hparen.append
          refine .call hpart his hparen.part hinside.part (ih outside.length ?_ ?_ rfl)
          · simp only [List.length_append, List.length_cons] at hlength
            omega
          · exact hinside.append.append
    · exact .token hpart (LeafText.is_of_word (hword _ rfl) _)
        (ih behind.length (by omega) hbehind rfl)

/-- The stream of a text is **placed** in it. -/
theorem placed_ofText (text : List Char) : Placed text (ofText text) :=
  placed_ofTextAt ⟨[], rfl, rfl⟩

/-- The head of a placed stream is to **blame** for a fault that says what was found. -/
theorem Placed.blames {text : List Char} {s : TokenStream} (h : Placed text s)
    {fault : Option Token → SyntaxFault} (hfault : ∀ found, (fault found).found? = some found) :
    (s.blame fault).Blames text := by
  have hsame : ∀ {part : LeafText} {found : Option Token}, part.Is found →
      ∀ found', (fault found).found? = some found' → part.Is found' := by
    intro part found his found' hfound
    rw [hfault, Option.some.injEq] at hfound
    exact hfound ▸ his
  cases h with
  | finish =>
    have hend : (LeafText.mk (byteLength text) []).In text := ⟨text, [], by simp, rfl⟩
    exact Error.blames_of_part hend (hsame (ofTextAt_of_allBlank 0 rfl))
  | broken hpart hnone =>
    refine Error.blames_of_part hpart fun found hfound => ?_
    rw [hnone] at hfound
    cases hfound
  | token hpart his => exact Error.blames_of_part hpart (hsame his)
  | call hpart his => exact Error.blames_of_part hpart (hsame his)
  | openCall hpart his => exact Error.blames_of_part hpart (hsame his)

theorem found?_unexpected (found : Option Token) : (unexpected found).found? = some found := by
  cases found <;> rfl

end TokenStream

/-! ### Outcomes -/

/-- An outcome **answers** for a text when a value has the property `P` and an error is to blame on
the text. -/
def Answers {α : Type} (text : List Char) (P : α → Prop) : Except Error α → Prop
  | .ok a => P a
  | .error error => error.Blames text

section Answers

variable {α β : Type} {text : List Char} {P : α → Prop} {Q : β → Prop}

/-- What answers for a text can be followed by what answers for it. -/
theorem Answers.bind {x : Except Error α} {f : α → Except Error β} (hx : Answers text P x)
    (hf : ∀ a, P a → Answers text Q (f a)) : Answers text Q (x >>= f) := by
  cases x with
  | error => exact hx
  | ok a => exact hf a hx

theorem Answers.of_error {x : Except Error α} (h : ∀ error, x = .error error → error.Blames text) :
    Answers text (fun _ => True) x := by
  cases x with
  | error error => exact h error rfl
  | ok => trivial

end Answers

/-- What answers for a part of a text answers for the text, with its errors moved to the part. -/
theorem Answers.mapError {α : Type} {text : List Char} {part : LeafText} (hpart : part.In text)
    {x : Except Error α} (h : Answers part.text (fun _ => True) x) :
    Answers text (fun _ => True) (x.mapError (Error.shift part.offset)) := by
  cases x with
  | error => exact Error.Blames.shift hpart h
  | ok => trivial

/-- Building a tree answers for its text where making a piece an expression does for the piece. -/
theorem ArgTree.answers_ofText {ε : Type} {compile : List Char → Except Error ε}
    (hcompile : ∀ text, Answers text (fun _ => True) (compile text)) (text : List Char) :
    Answers text (fun _ => True) (ofText compile text) := by
  refine Answers.of_error fun error herror => ?_
  rw [ofText_eq_traverse, traverse_eq_error_iff, List.findSome?_eq_some_iff] at herror
  obtain ⟨before, piece, behind, hpieces, hfails, -⟩ := herror
  have hpiece : piece.In text := in_of_mem_outline text piece (by simp [hpieces])
  have hanswers := Answers.mapError hpiece (hcompile piece.text)
  rw [failure?_eq_some_iff] at hfails
  rwa [← compilePiece, hfails] at hanswers

namespace Expr

open TokenStream (Placed)

/-- A reader **stays** in a text when it leaves streams of the text placed in it. -/
def Stays (reader : Reader) : Prop :=
  ∀ {text s}, Placed text s → Answers text (fun read => Placed text read.2) (reader s)

section Stays

variable {text : List Char} {s : TokenStream}

theorem Stays.placed {reader : Reader} (h : Stays reader) (hs : Placed text s) {e : Expr}
    {behind : TokenStream} (hread : reader s = .ok (e, behind)) : Placed text behind := by
  have hanswer := h hs
  rwa [hread] at hanswer

theorem Stays.blames {reader : Reader} (h : Stays reader) (hs : Placed text s) {error : Error}
    (hread : reader s = .error error) : error.Blames text := by
  have hanswer := h hs
  rwa [hread] at hanswer

theorem answers_operations {operand : Reader} (hoperand : Stays operand) (h : Placed text s) :
    Answers text (fun read => Placed text read.2) (operations operand s) := by
  fun_induction operations operand s with
  | case1 op span rest error hread =>
    obtain _ | _ | ⟨_, _, hrest⟩ := h
    exact hoperand.blames hrest hread
  | case2 op span rest e behind hread hlt _ hothers ih
  | case3 op span rest e behind hread hlt _ _ hothers ih =>
    obtain _ | _ | ⟨_, _, hrest⟩ := h
    have hsecond := ih (hoperand.placed hrest hread)
    rwa [hothers] at hsecond
  | case4 op span rest e behind hread hlt =>
    obtain _ | _ | ⟨_, _, hrest⟩ := h
    exact hoperand.placed hrest hread
  | case5 => exact h

theorem stays_chain {operand : Reader} (hoperand : Stays operand) : Stays (chain operand) :=
  fun h => (hoperand h).bind fun _ hbehind =>
    (answers_operations hoperand hbehind).bind fun _ hlast => hlast

theorem answers_whole {operand : Reader} (hoperand : Stays operand) (h : Placed text s) :
    Answers text (fun _ => True) (whole operand s) := by
  refine (stays_chain hoperand h).bind fun read hlast => ?_
  dsimp only
  split
  · trivial
  · exact hlast.blames TokenStream.found?_unexpected

theorem answers_elements {element : Reader} (helement : Stays element) (h : Placed text s) :
    Answers text (fun read => Placed text read.2) (elements element s) := by
  fun_induction elements element s with
  | case1 s error hread => exact helement.blames h hread
  | case2 s e span rest hread hlt _ hothers ih
  | case3 s e span rest hread hlt _ _ hothers ih =>
    obtain _ | _ | ⟨_, _, hrest⟩ := helement.placed h hread
    have hsecond := ih hrest
    rwa [hothers] at hsecond
  | case4 s e span rest hread hlt =>
    obtain _ | _ | ⟨_, _, hrest⟩ := helement.placed h hread
    exact hrest
  | case5 s e behind _ hread => exact helement.placed h hread

/-! ### What is nested -/

variable {optimize : Bool} {deeper : Option Reader}
  (hdeeper : ∀ reader, deeper = some reader → Stays reader)

/-- A fault that says nothing of what was found may be at any part of a text. -/
theorem blames_part {part : LeafText} (h : part.In text) {fault : SyntaxFault}
    (hfault : fault.found? = none) : (Error.ofFault fault part.span).Blames text := by
  refine Error.blames_of_part h fun found hfound => ?_
  rw [hfault] at hfound
  cases hfound

theorem answers_nested {part : LeafText} (h : part.In text) :
    Answers text (fun reader => deeper = some reader) (nested deeper part.span) := by
  unfold nested
  split
  · exact blames_part h rfl
  · rfl

theorem blames_tooDeep {opening : Nat} (hopening : (LeafText.mk opening ['(']).In text) :
    (Error.ofFault .nestingTooDeep ⟨opening, opening + 1⟩).Blames text :=
  blames_part hopening rfl

theorem answers_whole_text {operand : Reader} (hoperand : Stays operand) (optimize : Bool)
    (text : List Char) : Answers text (fun _ => True) (do
      let e ← whole operand (.ofText text)
      pure (if optimize then e.fold.1 else e)) :=
  (answers_whole hoperand (TokenStream.placed_ofText text)).bind fun _ _ => trivial

theorem answers_intact (h : Placed text s) : Answers text (fun _ => True) s.intact := by
  cases h with
  | broken hpart hfault => exact blames_part hpart hfault
  | _ => trivial

theorem answers_behindRoundClose (h : Placed text s) :
    Answers text (Placed text) s.behindRoundClose := by
  unfold TokenStream.behindRoundClose
  split
  · obtain _ | _ | ⟨_, _, hrest⟩ := h
    exact hrest
  · exact h.blames fun _ => rfl

theorem answers_behindSquareClose (h : Placed text s) :
    Answers text (Placed text) s.behindSquareClose := by
  unfold TokenStream.behindSquareClose
  split
  · obtain _ | _ | ⟨_, _, hrest⟩ := h
    exact hrest
  · exact h.blames fun _ => rfl

theorem answers_ofName (grid : Grid) (n : String) {part : LeafText} (h : part.In text) :
    Answers text (fun _ => True) (ofName grid n part.span) := by
  refine Answers.of_error fun error herror => ?_
  unfold ofName at herror
  split at herror
  · cases herror
  split at herror
  · cases herror
  split at herror
  · cases herror
  split at herror
  · cases herror
  split at herror <;> cases herror
  exact blames_part h rfl

theorem blames_openCall (deeper : Option Reader) {opening : Nat} {inside : List Char}
    (hopening : (LeafText.mk opening ['(']).In text)
    (hinside : (LeafText.mk opening ('(' :: inside)).In text) :
    (openCallError deeper opening (opening + 1 + byteLength inside)).Blames text := by
  have hstop : opening + 1 + byteLength inside = opening + byteLength ('(' :: inside) := by
    rw [Text.byteLength_cons, ← Nat.add_assoc]
    rfl
  unfold openCallError
  split
  · exact blames_tooDeep hopening
  · rw [hstop]
    exact blames_part hinside rfl

include hdeeper

theorem answers_arguments {opening : Nat} {inside : List Char}
    (hopening : (LeafText.mk opening ['(']).In text)
    (hinside : (LeafText.mk (opening + 1) inside).In text) :
    Answers text (fun _ => True) (arguments optimize deeper opening inside) := by
  cases deeper with
  | none => exact blames_tooDeep hopening
  | some reader =>
    exact (ArgTree.answers_ofText (answers_whole_text (hdeeper reader rfl) optimize) inside).mapError
      hinside

theorem answers_members {e : Expr} (h : Placed text s) :
    Answers text (fun read => Placed text read.2) (members optimize deeper e s) := by
  fun_induction members optimize deeper e s with
  | case1 e span n span' rest ih =>
    obtain _ | _ | ⟨_, _, h⟩ := h
    obtain _ | _ | ⟨_, _, hrest⟩ := h
    exact ih hrest
  | case2 e span n span' opening inside rest ih =>
    obtain _ | _ | ⟨_, _, h⟩ := h
    obtain _ | _ | _ | ⟨_, _, hopening, hinside, hrest⟩ := h
    exact (answers_arguments hdeeper hopening hinside).bind fun _ _ => ih _ hrest
  | case3 e span n span' opening stop =>
    obtain _ | _ | ⟨_, _, h⟩ := h
    obtain _ | _ | _ | _ | ⟨_, _, hopening, hinside⟩ := h
    exact blames_openCall deeper hopening hinside
  | case4 e span t span' rest hname =>
    obtain _ | _ | ⟨_, _, h⟩ := h
    have hblames := @Placed.blames _ _ h .expectedMember fun _ => rfl
    obtain _ | _ | ⟨_, _, hrest⟩ := h
    exact (answers_intact hrest).bind fun _ _ => hblames
  | case5 e span rest =>
    obtain _ | _ | ⟨_, _, h⟩ := h
    exact h.blames fun _ => rfl
  | case6 => exact h

/-! ### Operands -/

theorem answers_unaryOperand (op : UnaryOp) {part : LeafText} (hpart : part.In text)
    (h : Placed text s) :
    Answers text (fun read => Placed text read.2) (unaryOperand deeper op part.span s) :=
  (answers_nested hpart).bind fun reader hreader =>
    (hdeeper reader hreader h).bind fun _ hlast => hlast

theorem answers_parenthesized {part : LeafText} (hpart : part.In text) (h : Placed text s) :
    Answers text (fun read => Placed text read.2) (parenthesized deeper part.span s) :=
  (answers_nested hpart).bind fun reader hreader =>
    (stays_chain (hdeeper reader hreader) h).bind fun _ hbehind =>
      (answers_behindRoundClose hbehind).bind fun _ hlast => hlast

theorem answers_bracketed {part : LeafText} (hpart : part.In text) (h : Placed text s) :
    Answers text (fun read => Placed text read.2) (bracketed deeper part.span s) := by
  refine (answers_nested hpart).bind fun reader hreader => ?_
  dsimp only
  split
  · obtain _ | _ | ⟨_, _, hrest⟩ := h
    exact hrest
  · exact (answers_elements (stays_chain (hdeeper reader hreader)) h).bind fun _ hbehind =>
      (answers_behindSquareClose hbehind).bind fun _ hlast => hlast

theorem stays_operand (grid : Grid) (optimize : Bool) : Stays (operand grid optimize deeper) := by
  intro text s h
  have hmembers : ∀ {e t span rest}, Placed text (.token t span rest) →
      Answers text (fun read => Placed text read.2) (members optimize deeper e rest) := by
    intro e t span rest h
    obtain _ | _ | ⟨_, _, hrest⟩ := h
    exact answers_members hdeeper hrest
  unfold operand
  split
  · obtain _ | _ | ⟨hpart, _, hrest⟩ := h
    exact answers_unaryOperand hdeeper .negate hpart hrest
  · obtain _ | _ | ⟨hpart, _, hrest⟩ := h
    exact answers_unaryOperand hdeeper .not hpart hrest
  · exact hmembers h
  · exact hmembers h
  · exact hmembers h
  · exact hmembers h
  · obtain _ | _ | ⟨hpart, _, hrest⟩ := h
    exact (answers_intact hrest).bind fun _ _ =>
      (answers_ofName grid _ hpart).bind fun _ _ => answers_members hdeeper hrest
  · obtain _ | _ | ⟨hpart, _, hrest⟩ := h
    exact (answers_parenthesized hdeeper hpart hrest).bind fun _ hbehind =>
      answers_members hdeeper hbehind
  · obtain _ | _ | ⟨hpart, _, hrest⟩ := h
    exact (answers_bracketed hdeeper hpart hrest).bind fun _ hbehind =>
      answers_members hdeeper hbehind
  · obtain _ | _ | _ | ⟨_, _, hopening, hinside, hrest⟩ := h
    exact (answers_arguments hdeeper hopening hinside).bind fun _ _ => answers_members hdeeper hrest
  · obtain _ | _ | _ | _ | ⟨_, _, hopening, hinside⟩ := h
    exact blames_openCall deeper hopening hinside
  · exact h.blames TokenStream.found?_unexpected

end Stays

/-- Reading one operand **stays** in the text, at any level of nesting. -/
theorem stays_operandAt (grid : Grid) (optimize : Bool) (n : Nat) :
    Stays (operandAt grid optimize n) := by
  induction n with
  | zero => exact stays_operand (fun _ h => by cases h) grid optimize
  | succ n ih =>
    refine stays_operand (fun reader h => ?_) grid optimize
    cases h
    exact ih

theorem answers_readAt (grid : Grid) (optimize : Bool) (n : Nat) (text : List Char) :
    Answers text (fun _ => True) (readAt grid optimize n text) :=
  answers_whole_text (stays_operandAt grid optimize n) optimize text

end Expr

/-! ### Reading argument text -/

/-- A row of steps fails at the **first** that does. -/
theorem mapM_eq_error_iff {α β : Type} {f : α → Except Error β} {items : List α} {error : Error} :
    items.mapM f = .error error ↔ ∃ front item back, items = front ++ item :: back ∧
      (∀ other ∈ front, ∃ value, f other = .ok value) ∧ f item = .error error := by
  induction items with
  | nil =>
    refine ⟨nofun, ?_⟩
    rintro ⟨front, item, back, heq, -⟩
    cases front <;> cases heq
  | cons first others ih =>
    rw [List.mapM_cons]
    cases hfirst : f first with
    | error =>
      constructor
      · rintro ⟨⟩
        exact ⟨[], first, others, rfl, by simp, hfirst⟩
      · rintro ⟨front, item, back, heq, hfront, hitem⟩
        cases front with
        | nil =>
          cases heq
          cases hfirst.symm.trans hitem
          rfl
        | cons _ _ =>
          cases heq
          obtain ⟨value, hvalue⟩ := hfront _ (List.mem_cons_self ..)
          exact nomatch hfirst.symm.trans hvalue
    | ok value =>
      have hothers : (others.mapM f >>= fun values => pure (value :: values)) = .error error ↔
          others.mapM f = .error error := by
        cases others.mapM f with
        | error => exact Iff.rfl
        | ok => exact ⟨nofun, nofun⟩
      refine hothers.trans (ih.trans ⟨?_, ?_⟩)
      · rintro ⟨front, item, back, rfl, hfront, hitem⟩
        exact ⟨first :: front, item, back, rfl,
          List.forall_mem_cons.2 ⟨⟨value, hfirst⟩, hfront⟩, hitem⟩
      · rintro ⟨front, item, back, heq, hfront, hitem⟩
        cases front with
        | nil =>
          cases heq
          rw [hfirst] at hitem
          cases hitem
        | cons _ front =>
          cases heq
          exact ⟨front, item, back, rfl, (List.forall_mem_cons.1 hfront).2, hitem⟩

theorem map_eq_error_iff {α β : Type} {f : α → β} {outcome : Except Error α} {error : Error} :
    outcome.map f = .error error ↔ outcome = .error error := by
  cases outcome <;> simp [Except.map]

/-- Replacing templates fails with syntax errors only. -/
theorem Template.exists_badSyntax_of_expand {context : Context} {text : List Char} {error : Error}
    (h : expand context text = .error error) : ∃ e, error = .badSyntax e := by
  rw [expand, map_eq_error_iff] at h
  obtain ⟨-, part, -, -, -, hpart⟩ := mapM_eq_error_iff.1 h
  cases part with
  | plain => cases hpart
  | template inside span =>
    simp only [Part.expand] at hpart
    split at hpart <;> cases hpart
    exact ⟨_, rfl⟩
  | unclosed =>
    cases hpart
    exact ⟨_, rfl⟩

/-- Compiling fails with syntax errors only. -/
theorem Expr.exists_badSyntax_of_compileAt {env : Env} {options : Options} {depth : Nat}
    {text : List Char} {error : Error} (h : compileAt env options depth text = .error error) :
    ∃ e, error = .badSyntax e := by
  have hread : ∀ text, readAt env.grid options.optimize (nestingLimit - depth) text =
      .error error → ∃ e, error = .badSyntax e := by
    intro text hread
    have hanswers := answers_readAt env.grid options.optimize (nestingLimit - depth) text
    rw [hread] at hanswers
    obtain ⟨e, he, -⟩ := hanswers
    exact ⟨e, he⟩
  unfold compileAt at h
  split at h
  · cases hexpand : Template.expand env.context text with
    | error =>
      rw [hexpand] at h
      cases h
      exact Template.exists_badSyntax_of_expand hexpand
    | ok expanded =>
      rw [hexpand] at h
      exact hread expanded h
  · exact hread text h

namespace ArgTree

/-- **Every error of reading argument text is a syntax error**, and without templates it points into
the text: its span marks a part of the text, whichever arguments of arguments the error was found
in, and what the error says was found is what that part is when it stands alone. -/
theorem pointsInto_of_parseWith {env : Env} {options : Options} {text : List Char} {error : Error}
    (h : (parseWith env options text : Except Error (ArgTree Expr)) = .error error) :
    ∃ e, error = .badSyntax e ∧
      (options.expandTemplates = false → byteLength text ≤ maxPosition → e.PointsInto text) := by
  rw [parseWith, parseAt] at h
  cases hexpands : options.expandTemplates with
  | true =>
    rw [ofText_eq_traverse, traverse_eq_error_iff, List.findSome?_eq_some_iff] at h
    obtain ⟨before, piece, behind, -, hfails, -⟩ := h
    rw [failure?_eq_some_iff, compilePiece] at hfails
    cases hpiece : (Leaf.compile env options 0 piece.text : Except Error Expr) with
    | ok => rw [hpiece] at hfails; cases hfails
    | error error' =>
      rw [hpiece] at hfails
      cases hfails
      obtain ⟨e, rfl⟩ := Expr.exists_badSyntax_of_compileAt hpiece
      exact ⟨e.shift piece.offset, rfl, fun hplain => by cases hplain⟩
  | false =>
    have hcompile : ∀ text, Answers text (fun _ => True)
        (Leaf.compile env options 0 text : Except Error Expr) := by
      intro text
      have hread := Expr.answers_readAt env.grid options.optimize nestingLimit text
      simp only [Leaf.compile, Expr.compileAt, hexpands]
      exact hread
    have hanswers := answers_ofText hcompile text
    rw [h] at hanswers
    obtain ⟨e, he, hpoints⟩ := hanswers
    exact ⟨e, he, fun _ => hpoints⟩

/-- In `'é';f(g(a b))` the second name is one too many, at byte eleven of the text. -/
theorem pointsInto_second_name :
    ∃ e, (parseWith ⟨⟨9, 9⟩, .empty⟩ {}
        ['\'', 'é', '\'', ';', 'f', '(', 'g', '(', 'a', ' ', 'b', ')', ')'] :
          Except Error (ArgTree Expr)) = .error (.badSyntax e) ∧
      e = ⟨.unexpectedToken (.name "b"), ⟨11, 12⟩⟩ ∧
      e.PointsInto ['\'', 'é', '\'', ';', 'f', '(', 'g', '(', 'a', ' ', 'b', ')', ')'] := by
  have hread : (parseWith ⟨⟨9, 9⟩, .empty⟩ {}
      ['\'', 'é', '\'', ';', 'f', '(', 'g', '(', 'a', ' ', 'b', ')', ')'] :
        Except Error (ArgTree Expr)) =
          .error (.badSyntax ⟨.unexpectedToken (.name "b"), ⟨11, 12⟩⟩) := by
    cbv
  obtain ⟨e, he, hpoints⟩ := pointsInto_of_parseWith hread
  cases he
  exact ⟨_, hread, rfl, hpoints rfl (by decide)⟩

end ArgTree

end GridFormula
