import GridFormula.Proofs.Building
import GridFormula.Proofs.CellBytes
import GridFormula.Proofs.Climbing
import GridFormula.Proofs.Reading

/-!
# Parsing at a position

Expressions are read by a program that holds one token and the position behind it, and has no stream
of tokens. At the parenthesis behind a name it leaves the tokens: it looks for the closing
parenthesis in bytes, slices the text between them out, builds a tree of it whose leaves are read by
the same program one level deeper, and goes on behind the parenthesis.

The program never traps, and does what the readers of streams do. Two things end it. Going round a
loop takes tokens off the text, so that the token it holds begins further on. Going deeper, into
brackets, to an operand or into the text of arguments, takes one of the levels that are left.

## Main definitions

* `Expr.parseArguments`: the arguments of a call.
* `Expr.parseOperand`, `Expr.parseOperandAt`: one operand, with so many levels left.
* `Expr.parseWhole`: a text that has to be one expression.

## Main results

* `Expr.tracks_parseOperandAt`: an operand is read without a trap, as off a stream.
* `Expr.parseWhole_eq`: so is a whole text.
-/

namespace GridFormula.Expr

open Text (byteLength utf8Bytes)
open Cursor (nextToken)
open Run (answer)
open TokenStream (Lexed Takes)

/-! ### The program -/

/-- A program that reads one operand, of any text. -/
abbrev OperandParser := List Char → Parser Expr

/-- The token behind one that has to stand next. -/
def expect (input : List Char) (wanted : Token) (ahead : Ahead) : Run Ahead :=
  if ahead.token = some wanted then nextToken input ahead.span.stop
  else throw (Error.ofFault (.expectedToken wanted ahead.token) ahead.span)

/-- Reads a text that has to be **one expression**. -/
def parseWhole (optimize : Bool) (operand : OperandParser) (text : List Char) : Run Expr := do
  let ahead ← nextToken text 0
  let (e, ahead) ← climb text (operand text) 0 ahead
  match ahead.token with
  | none => pure (if optimize then e.fold.1 else e)
  | found => throw (Error.ofFault (TokenStream.unexpected found) ahead.span)

/-- What runs one level deeper, if a level is left. -/
def parseNested {α : Type} (deeper : Option OperandParser) (parse : OperandParser → Parser α) :
    Parser α := fun ahead =>
  match deeper with
  | none => throw (Error.ofFault .nestingTooDeep ahead.span)
  | some operand => parse operand ahead

section Program

variable (optimize : Bool) (deeper : Option OperandParser) (input : List Char)

/-- Reads the **arguments** of a call from its opening parenthesis on. -/
def parseArguments : Parser (ArgTree Expr) :=
  parseNested deeper fun operand ahead => do
    let opening := ahead.span.start
    match ← Scan.bracketEnd (utf8Bytes input) .round opening with
    | none => throw (Error.ofFault .unterminatedCall ⟨opening, byteLength input⟩)
    | some close =>
      let text ← Checked.slice input (opening + 1) close
      let tree ← (ArgTree.build (parseWhole optimize operand) text).mapError
        (Error.shift (opening + 1))
      let next ← nextToken input (close + 1)
      pure (tree, next)

/-- One round of reading members. -/
def memberRound (s : Expr × Ahead) : Run ((Expr × Ahead) ⊕ (Expr × Ahead)) :=
  if s.2.token = some .dot then do
    let member ← nextToken input s.2.span.stop
    let next ← nextToken input member.span.stop
    match member.token with
    | some (.name n) =>
      if next.token = some .roundOpen then
        let (arguments, after) ← parseArguments optimize deeper input next
        pure (.inl (.memberCall s.1 n arguments, after))
      else pure (.inl (.member s.1 n, next))
    | found => throw (Error.ofFault (.expectedMember found) member.span)
  else pure (.inr s)

/-- Reads the **members** that follow an expression. -/
def parseMembers (e : Expr) : Parser Expr := fun ahead =>
  Run.loop (left input) (memberRound optimize deeper input) (e, ahead)

/-- Reads the operand of a unary operator. -/
def parseUnary (op : UnaryOp) : Parser Expr :=
  parseNested deeper fun operand ahead => do
    let next ← nextToken input ahead.span.stop
    let (e, after) ← climb input (operand input) 7 next
    pure (.unary op e, after)

/-- Reads what stands between parentheses. -/
def parseParenthesized : Parser Expr :=
  parseNested deeper fun operand ahead => do
    let next ← nextToken input ahead.span.stop
    let (e, last) ← climb input (operand input) 0 next
    let after ← expect input .roundClose last
    pure (.paren e, after)

/-- One round of reading the expressions of a sequence. -/
def elementRound (element : Parser Expr) (s : List Expr × Ahead) :
    Run ((List Expr × Ahead) ⊕ (List Expr × Ahead)) := do
  let (e, ahead) ← element s.2
  if ahead.token = some .comma then
    let next ← nextToken input ahead.span.stop
    pure (.inl (s.1 ++ [e], next))
  else pure (.inr (s.1 ++ [e], ahead))

/-- Reads the expressions of a sequence, of which there is at least one. -/
def parseElements (element : Parser Expr) : Parser (List Expr) := fun ahead =>
  Run.loop (left input) (elementRound input element) ([], ahead)

/-- Reads what stands between square brackets. -/
def parseBracketed : Parser Expr :=
  parseNested deeper fun operand ahead => do
    let next ← nextToken input ahead.span.stop
    let (items, last) ← if next.token = some .squareClose then pure ([], next)
      else parseElements input (climb input (operand input) 0) next
    let after ← expect input .squareClose last
    pure (.sequence items, after)

/-- What a bare name at a span stands for. -/
def resolveName (grid : Grid) (n : String) (span : Span) : Run Expr := do
  if n = "true" then pure (.literal (.bool true))
  else if n = "false" then pure (.literal (.bool false))
  else if n = "null" then pure (.literal .null)
  else
    match (← Cell.read n.toList).filter grid.contains with
    | some c => pure (.cell c)
    | none =>
      if n.toList.contains '$' then throw (Error.ofFault (.invalidCell n) span)
      else pure (.name n)

/-- Reads what begins with a name: a call, or a bare name. -/
def parseName (grid : Grid) (n : String) : Parser Expr := fun ahead => do
  let next ← nextToken input ahead.span.stop
  if next.token = some .roundOpen then
    let (arguments, after) ← parseArguments optimize deeper input next
    pure (.call n arguments, after)
  else
    let e ← resolveName grid n ahead.span
    pure (e, next)

/-- Reads what is one token. -/
def parseSingle (e : Expr) : Parser Expr := fun ahead => do
  let next ← nextToken input ahead.span.stop
  pure (e, next)

/-- Reads an expression with the members that follow it. -/
def parseTarget (target : Parser Expr) : Parser Expr := fun ahead => do
  let (e, next) ← target ahead
  parseMembers optimize deeper input e next

/-- Reads **one operand**. -/
def parseOperand (grid : Grid) : Parser Expr := fun ahead =>
  let target := parseTarget optimize deeper input
  match ahead.token with
  | some (.operator .subtract) => parseUnary deeper input .negate ahead
  | some .bang => parseUnary deeper input .not ahead
  | some (.number n) => target (parseSingle input (.literal (.number n))) ahead
  | some (.text s) => target (parseSingle input (.literal (.text s))) ahead
  | some (.field n) => target (parseSingle input (.field n)) ahead
  | some .hash => target (parseSingle input .currentRow) ahead
  | some (.name n) => target (parseName optimize deeper input grid n) ahead
  | some .roundOpen => target (parseParenthesized deeper input) ahead
  | some .squareOpen => target (parseBracketed deeper input) ahead
  | found => throw (Error.ofFault (TokenStream.unexpected found) ahead.span)

end Program

/-- Reads one operand with so many levels of nesting **left**. -/
def parseOperandAt (grid : Grid) (optimize : Bool) : Nat → OperandParser
  | 0 => fun input => parseOperand optimize none input grid
  | levels + 1 => fun input =>
    parseOperand optimize (some (parseOperandAt grid optimize levels)) input grid

/-! ### Going on -/

section Arrivals

variable {α β : Type} {s : TokenStream} {ahead : Ahead}

theorem arrive_ok (a : α) (h : s.look = .ok ahead) : arrive (.ok (a, s)) = .ok (a, ahead) := by
  simp only [arrive, bind, Except.bind, h]
  rfl

theorem arrive_ok_of_error (a : α) {error : Error} (h : s.look = .error error) :
    arrive (.ok (a, s)) = .error error := by
  simp only [arrive, bind, Except.bind, h]

/-- A program that **goes on** where a reader leaves off tracks what goes on along the stream, if
that refuses a lexeme that is no token. -/
theorem arrive_bind {outcome : Except Error (α × TokenStream)}
    {program : α × Ahead → Run (β × Ahead)}
    {reader : α × TokenStream → Except Error (β × TokenStream)}
    (hgoes : ∀ a s ahead, outcome = .ok (a, s) → s.look = .ok ahead →
      program (a, ahead) = answer (arrive (reader (a, s))))
    (hbroken : ∀ a e, arrive (reader (a, .broken e)) = .error (.badSyntax e)) :
    (answer (arrive outcome) >>= program) = answer (arrive (outcome >>= reader)) := by
  cases outcome with
  | error => rfl
  | ok read =>
    obtain ⟨a, s⟩ := read
    cases hlook : s.look with
    | error error =>
      obtain ⟨e, rfl, rfl⟩ := TokenStream.eq_broken_of_look hlook
      rw [arrive_ok_of_error a hlook, Run.answer_error_bind]
      exact congrArg answer (hbroken a e).symm
    | ok ahead =>
      rw [arrive_ok a hlook, Run.answer_ok_bind]
      exact hgoes a s ahead rfl hlook

theorem intact_of_look (h : s.look = .ok ahead) : s.intact = .ok () := by
  cases s <;> cases h <;> rfl

theorem blame_of_look (fault : Option Token → SyntaxFault) (h : s.look = .ok ahead) :
    s.blame fault = Error.ofFault (fault ahead.token) ahead.span := by
  cases s <;> cases h <;> rfl

/-- A token that has to stand next is gone over, or what stands there is to blame. -/
theorem expect_eq {input : List Char} {wanted : Token}
    {behind : TokenStream → Except Error TokenStream}
    (hwanted : ∀ span rest, behind (.token wanted span rest) = .ok rest)
    (hother : ∀ s : TokenStream, (∀ span rest, s ≠ .token wanted span rest) →
      behind s = .error (s.blame (.expectedToken wanted)))
    (hs : Lexed input s) (hlook : s.look = .ok ahead) (hname : wanted.isName = false) :
    expect input wanted ahead = answer (behind s >>= TokenStream.look) := by
  by_cases hahead : ahead.token = some wanted
  · obtain ⟨rest, rfl⟩ := TokenStream.eq_token_of_look hlook hahead hname
    cases hs with
    | token _ _ hnext _ =>
      rw [expect, if_pos hahead, hnext, hwanted]
      rfl
  · have hne : ∀ span rest, s ≠ .token wanted span rest := by
      rintro span rest rfl
      cases hlook
      exact hahead rfl
    rw [expect, if_neg hahead, hother s hne, blame_of_look _ hlook]
    rfl

theorem expect_roundClose {input : List Char} (hs : Lexed input s) (hlook : s.look = .ok ahead) :
    expect input .roundClose ahead = answer (s.behindRoundClose >>= TokenStream.look) :=
  expect_eq (fun _ _ => rfl) (fun s hne => by
    unfold TokenStream.behindRoundClose
    split
    · next span rest => exact absurd rfl (hne span rest)
    · rfl) hs hlook rfl

theorem expect_squareClose {input : List Char} (hs : Lexed input s) (hlook : s.look = .ok ahead) :
    expect input .squareClose ahead = answer (s.behindSquareClose >>= TokenStream.look) :=
  expect_eq (fun _ _ => rfl) (fun s hne => by
    unfold TokenStream.behindSquareClose
    split
    · next span rest => exact absurd rfl (hne span rest)
    · rfl) hs hlook rfl

end Arrivals

/-! ### What is nested -/

/-- A program for what is nested **corresponds** to a reader for it when neither is there, or when
the program tracks the reader on any text. -/
inductive Corresponds : Option OperandParser → Option Reader → Prop
  /-- No level is left. -/
  | none : Corresponds none none
  /-- A level is left. -/
  | some {parser : OperandParser} {reader : Reader} : (∀ text, Tracks text (parser text) reader) →
      Steady reader → Corresponds (some parser) (some reader)

section Nesting

variable {operand : Reader} {parser : OperandParser}

/-- A text that has to be one expression is read **without a trap**. -/
theorem parseWhole_eq (optimize : Bool) (hsteady : Steady operand)
    (htracks : ∀ text, Tracks text (parser text) operand) (text : List Char) :
    parseWhole optimize parser text = answer (do
      let e ← whole operand (.ofText text)
      pure (if optimize then e.fold.1 else e)) := by
  have hstart := TailAt.whole text
  have hs := TokenStream.lexed_ofTextAt hstart
  have hnext := Cursor.nextToken_eq hstart
  rw [parseWhole, hnext, whole, TokenStream.ofText]
  generalize TokenStream.ofTextAt 0 text = s at *
  cases hlook : s.look with
  | error error =>
    obtain ⟨e, rfl, rfl⟩ := TokenStream.eq_broken_of_look hlook
    rw [hsteady.chain.broken]
    rfl
  | ok ahead =>
    rw [Run.answer_ok_bind, tracks_climb hsteady (htracks text) hs hlook]
    cases chain operand s with
    | error => rfl
    | ok read =>
      obtain ⟨e, last⟩ := read
      cases hlast : last.look with
      | error error =>
        rw [arrive_ok_of_error e hlast]
        obtain ⟨e, rfl, rfl⟩ := TokenStream.eq_broken_of_look hlast
        rfl
      | ok next =>
        rw [arrive_ok e hlast, Run.answer_ok_bind]
        cases last <;> cases hlast <;> rfl

end Nesting

section Parts

variable {optimize : Bool} {input : List Char} {deeper : Option OperandParser}
  {reader : Option Reader} (hdeeper : Corresponds deeper reader)
include hdeeper

/-! ### Arguments and members -/

/-- The arguments of a call are sliced out and read **without a trap**. -/
theorem parseArguments_eq (optimize : Bool) {opening : Nat} {text : List Char} {rest : TokenStream}
    (hclose : Scan.bracketEnd (utf8Bytes input) .round opening =
      .ok (some (opening + 1 + byteLength text)))
    (hslice : Checked.slice input (opening + 1) (opening + 1 + byteLength text) = .ok text)
    (hnext : nextToken input (opening + 1 + byteLength text + 1) = answer rest.look) :
    parseArguments optimize deeper input (TokenStream.openingAt opening) = answer (arrive (do
      let tree ← arguments optimize reader opening text
      pure (tree, rest))) := by
  cases hdeeper with
  | none => rfl
  | @some parser operand htracks hsteady =>
    have hbuild := ArgTree.build_eq (parseWhole_eq optimize hsteady htracks) text
    rw [parseArguments, parseNested, TokenStream.openingAt]
    dsimp only
    rw [hclose, Run.lift_ok, Run.answer_ok_bind]
    dsimp only
    rw [hslice, Run.lift_ok, Run.answer_ok_bind, hbuild, Run.mapError_answer, hnext]
    unfold arguments
    dsimp only
    cases (ArgTree.ofText _ text).mapError (Error.shift (opening + 1)) with
    | error => rfl
    | ok tree =>
      have harrive : arrive (.ok (tree, rest)) = rest.look.map fun next => (tree, next) := by
        cases rest <;> rfl
      refine Eq.trans (Run.answer_map _ _) ?_
      exact congrArg answer harrive.symm

/-- A call that is never closed is refused. -/
theorem parseArguments_open (optimize : Bool) {opening : Nat}
    (hclose : Scan.bracketEnd (utf8Bytes input) .round opening = .ok none) :
    parseArguments optimize deeper input (TokenStream.openingAt opening) =
      answer (.error (openCallError reader opening (byteLength input))) := by
  cases hdeeper with
  | none => rfl
  | some =>
    rw [parseArguments, parseNested, TokenStream.openingAt]
    dsimp only
    rw [hclose, Run.lift_ok, Run.answer_ok_bind]
    rfl

omit hdeeper in
/-- Where a member has been read, the loop goes on behind it. -/
theorem parseMembers_next {e e' : Expr} {ahead : Ahead} {rest : TokenStream}
    (hround : memberRound optimize deeper input (e, ahead) =
      answer ((arrive (.ok (e', rest))).map .inl))
    (hlt : byteLength input - rest.start < byteLength input - ahead.span.start)
    (hrest : ∀ next, rest.look = .ok next → parseMembers optimize deeper input e' next =
      answer (arrive (members optimize reader e' rest))) :
    parseMembers optimize deeper input e ahead =
      answer (arrive (members optimize reader e' rest)) := by
  cases hlook : rest.look with
  | error error =>
    obtain ⟨error, rfl, rfl⟩ := TokenStream.eq_broken_of_look hlook
    rw [members]
    · exact Run.loop_of_error hround
    all_goals simp
  | ok next =>
    rw [arrive_ok e' hlook] at hround
    rw [← hrest next hlook]
    refine Run.loop_of_next hround ?_
    rw [left, left, TokenStream.start_of_look hlook]
    exact hlt

section Rounds

variable (e : Expr) {span span' : Span} {m : String} {opening stop : Nat} {text : List Char}
  {rest s : TokenStream}

omit hdeeper in
theorem memberRound_dot (optimize : Bool) (deeper : Option OperandParser) {member : Ahead}
    (hs : Lexed input (.token .dot span s)) (hlook : s.look = .ok member) :
    memberRound optimize deeper input (e, ⟨some .dot, span⟩) = (do
      let next ← nextToken input member.span.stop
      match member.token with
      | some (.name n) =>
        if next.token = some .roundOpen then
          let (arguments, after) ← parseArguments optimize deeper input next
          pure (.inl (.memberCall e n arguments, after))
        else pure (.inl (.member e n, next))
      | found => throw (Error.ofFault (.expectedMember found) member.span)) := by
  cases hs with
  | token _ _ hnext _ =>
    rw [memberRound, if_pos rfl]
    dsimp only
    rw [hnext, hlook]
    rfl

omit hdeeper in
/-- A name behind a dot, without arguments, is a member. -/
theorem memberRound_name
    (hs : Lexed input (.token .dot span (.token (.name m) span' rest))) :
    memberRound optimize deeper input (e, ⟨some .dot, span⟩) =
      answer ((arrive (.ok (.member e m, rest))).map .inl) := by
  have hround := memberRound_dot e optimize deeper hs rfl
  cases hs with
  | token _ _ _ hmember =>
    cases hmember with
    | token _ hname hnext _ =>
      rw [hround, hnext]
      cases hlook : rest.look with
      | error => rw [arrive_ok_of_error _ hlook]; rfl
      | ok next =>
        rw [arrive_ok _ hlook, Run.answer_ok_bind]
        exact if_neg (hname rfl next hlook)

/-- A call behind a dot is a call of a member. -/
theorem memberRound_call (optimize : Bool)
    (hs : Lexed input (.token .dot span (.call m span' opening text rest))) :
    memberRound optimize deeper input (e, ⟨some .dot, span⟩) = answer ((arrive (do
      let inside ← arguments optimize reader opening text
      pure (.memberCall e m inside, rest))).map .inl) := by
  have hround := memberRound_dot e optimize deeper hs rfl
  cases hs with
  | token _ _ _ hmember =>
    cases hmember with
    | call _ hopening hclose hslice hnext _ =>
      rw [hround, hopening, Run.answer_ok_bind]
      dsimp only
      rw [TokenStream.token_openingAt, if_pos rfl,
        parseArguments_eq hdeeper optimize hclose hslice hnext]
      cases arguments optimize reader opening text with
      | error => rfl
      | ok inside => cases rest <;> rfl

theorem memberRound_openCall
    (hs : Lexed input (.token .dot span (.openCall m span' opening stop))) :
    memberRound optimize deeper input (e, ⟨some .dot, span⟩) =
      answer (.error (openCallError reader opening stop)) := by
  have hround := memberRound_dot e optimize deeper hs rfl
  cases hs with
  | token _ _ _ hmember =>
    cases hmember with
    | openCall hopening hclose =>
      rw [hround, hopening, Run.answer_ok_bind]
      dsimp only
      rw [TokenStream.token_openingAt, if_pos rfl, parseArguments_open hdeeper optimize hclose]
      rfl

omit hdeeper in
/-- A token behind a dot that is no name is refused, if the one behind it is a token. -/
theorem memberRound_token (optimize : Bool) (deeper : Option OperandParser) {t : Token}
    (hother : ∀ n, t ≠ .name n)
    (hs : Lexed input (.token .dot span (.token t span' rest))) :
    memberRound optimize deeper input (e, ⟨some .dot, span⟩) = answer (do
      rest.intact
      .error (Error.ofFault (.expectedMember (some t)) span')) := by
  have hround := memberRound_dot e optimize deeper hs rfl
  cases hs with
  | token _ _ _ hmember =>
    cases hmember with
    | token _ _ hnext _ =>
      rw [hround, hnext]
      cases hlook : rest.look with
      | error error =>
        obtain ⟨error, rfl, rfl⟩ := TokenStream.eq_broken_of_look hlook
        rfl
      | ok next =>
        rw [Run.answer_ok_bind, intact_of_look hlook]
        dsimp only
        split
        · next heq => exact absurd (Option.some.inj heq) (hother _)
        · rfl

omit hdeeper in
/-- What is no token at all is refused behind a dot. -/
theorem memberRound_end (hs : Lexed input (.token .dot span s))
    (hend : ∀ t span rest, s ≠ .token t span rest)
    (hcall : ∀ m span opening text rest, s ≠ .call m span opening text rest)
    (hopen : ∀ m span opening stop, s ≠ .openCall m span opening stop) :
    memberRound optimize deeper input (e, ⟨some .dot, span⟩) =
      answer (.error (s.blame .expectedMember)) := by
  cases s with
  | finish =>
    have hround := memberRound_dot e optimize deeper hs rfl
    cases hs with
    | token _ _ _ hmember =>
      cases hmember with
      | finish hfinish =>
        rw [hround, hfinish]
        rfl
  | broken =>
    cases hs with
    | token _ _ hnext _ =>
      rw [memberRound, if_pos rfl]
      dsimp only
      rw [hnext]
      rfl
  | token => exact absurd rfl (hend _ _ _)
  | call => exact absurd rfl (hcall _ _ _ _ _)
  | openCall => exact absurd rfl (hopen _ _ _ _)

end Rounds

/-- The members behind an expression are read **without a trap**. -/
theorem tracks_parseMembers (e : Expr) :
    Tracks input (parseMembers optimize deeper input e) (members optimize reader e) := by
  intro s ahead hs hlook
  fun_induction members optimize reader e s generalizing ahead with
  | case1 e span m span' rest ih =>
    cases hlook
    have htakes : Takes (.token .dot span (.token (.name m) span' rest)) _ rest :=
      .token (.token (.nil rest))
    have hlt := hs.left_lt htakes (List.cons_ne_nil _ _)
    exact parseMembers_next (memberRound_name e hs) hlt fun next => ih (hs.of_takes htakes).1
  | case2 e span m span' opening text rest ih =>
    cases hlook
    have htakes : Takes (.token .dot span (.call m span' opening text rest)) _ rest :=
      .token (.call (.nil rest))
    have hlt := hs.left_lt htakes (List.cons_ne_nil _ _)
    have hround := memberRound_call hdeeper e optimize hs
    cases hinside : arguments optimize reader opening text with
    | error error =>
      rw [hinside] at hround
      exact Run.loop_of_error hround
    | ok inside =>
      rw [hinside] at hround
      exact parseMembers_next hround hlt fun next => ih inside (hs.of_takes htakes).1
  | case3 e span m span' opening stop =>
    cases hlook
    exact Run.loop_of_error (memberRound_openCall hdeeper e hs)
  | case4 e span t span' rest hother =>
    cases hlook
    have hround := memberRound_token e optimize deeper hother hs
    cases hintact : rest.intact <;>
    · rw [hintact] at hround
      exact Run.loop_of_error hround
  | case5 e span s _ hcall hopen hend =>
    cases hlook
    exact Run.loop_of_error (memberRound_end e hs hend hcall hopen)
  | case6 s e _ _ _ _ hdot =>
    have hne : ahead.token ≠ some .dot := fun heq => by
      obtain ⟨rest, rfl⟩ := TokenStream.eq_token_of_look hlook heq rfl
      exact hdot _ _ rfl
    rw [arrive_ok _ hlook]
    exact Run.loop_of_done (if_neg hne)

end Parts

/-! ### Brackets and operators -/

section Sequences

variable {input : List Char} {element : Parser Expr} {operand : Reader}

theorem Steady.lexed (hsteady : Steady operand) {s last : TokenStream} {e : Expr}
    (hs : Lexed input s) (hread : operand s = .ok (e, last)) : Lexed input last := by
  obtain ⟨items, -, htakes⟩ := hsteady.takes hread
  exact (hs.of_takes htakes).1

theorem Steady.lexed_of_elements (hsteady : Steady operand) {s last : TokenStream}
    {items : List Expr} (hs : Lexed input s) (hread : elements operand s = .ok (items, last)) :
    Lexed input last := by
  fun_induction elements operand s generalizing items last with
  | case1 => cases hread
  | case2 => cases hread
  | case3 s e span rest hfirst hlt others last' hrec ih =>
    cases hread
    cases hsteady.lexed hs hfirst with
    | token _ _ _ hrest => exact ih hrest hrec
  | case4 s e span rest hfirst hlt =>
    exact absurd (Nat.lt_of_succ_lt (hsteady.advances hfirst)) hlt
  | case5 s e behind _ hfirst =>
    cases hread
    exact hsteady.lexed hs hfirst

section Rounds

variable {s behind rest : TokenStream} {ahead next : Ahead} {e : Expr} {span : Span}

theorem elementRound_of_error (before : List Expr) {error : Error}
    (h : element ahead = answer (.error error)) :
    elementRound input element (before, ahead) = answer (.error error) := by
  rw [elementRound, h]
  rfl

/-- Behind an expression with a comma behind it there are more. -/
theorem elementRound_comma (before : List Expr) (h : element ahead = answer (.ok (e, next)))
    (hlook : (TokenStream.token .comma span rest).look = .ok next)
    (hnext : nextToken input span.stop = answer rest.look) :
    elementRound input element (before, ahead) =
      answer (rest.look.map fun next => .inl (before ++ [e], next)) := by
  cases hlook
  rw [elementRound, h, Run.answer_ok_bind]
  dsimp only
  rw [if_pos rfl, hnext]
  exact Run.answer_map _ _

theorem elementRound_last (before : List Expr) (h : element ahead = answer (.ok (e, next)))
    (hcomma : next.token ≠ some .comma) : elementRound input element (before, ahead) =
      answer (.ok (.inr (before ++ [e], next))) := by
  rw [elementRound, h, Run.answer_ok_bind]
  exact if_neg hcomma

end Rounds

/-- The loop keeps that what it has read stands in front of what the reader reads. -/
theorem loop_elementRound (hsteady : Steady operand) (htracks : Tracks input element operand)
    {s : TokenStream} {ahead : Ahead} (before : List Expr) (hs : Lexed input s)
    (hlook : s.look = .ok ahead) :
    Run.loop (left input) (elementRound input element) (before, ahead) =
      answer (arrive ((elements operand s).map fun read => (before ++ read.1, read.2))) := by
  induction hleft : left input (before, ahead) using Nat.strongRecOn
    generalizing before s ahead with
  | ind n ih =>
    have helement := htracks hs hlook
    cases hread : operand s with
    | error error =>
      rw [hread] at helement
      rw [elements, hread]
      exact Run.loop_of_error (elementRound_of_error before helement)
    | ok read =>
      obtain ⟨e, behind⟩ := read
      rw [hread] at helement
      obtain ⟨items, hne, htakes⟩ := hsteady.takes hread
      cases hbehind : behind.look with
      | error error =>
        rw [arrive_ok_of_error e hbehind] at helement
        obtain ⟨error, rfl, rfl⟩ := TokenStream.eq_broken_of_look hbehind
        rw [elements_of_ne hread fun _ _ heq => by cases heq]
        exact Run.loop_of_error (elementRound_of_error before helement)
      | ok next =>
        rw [arrive_ok e hbehind] at helement
        by_cases hcomma : next.token = some .comma
        · obtain ⟨rest, rfl⟩ := TokenStream.eq_token_of_look hbehind hcomma rfl
          have hlt := hs.left_lt (htakes.append (.token (.nil rest)))
            (List.append_ne_nil_of_left_ne_nil hne _)
          rw [elements_cons hsteady.advances hread]
          cases (hs.of_takes htakes).1 with
          | token _ _ hnext hrest =>
            have hround := elementRound_comma before helement hbehind hnext
            cases hrestLook : rest.look with
            | error error =>
              rw [hrestLook] at hround
              obtain ⟨error, rfl, rfl⟩ := TokenStream.eq_broken_of_look hrestLook
              rw [elements, hsteady.broken]
              exact Run.loop_of_error hround
            | ok after =>
              rw [hrestLook] at hround
              rw [← TokenStream.start_of_look hlook, ← TokenStream.start_of_look hrestLook] at hlt
              rw [Run.loop_of_next hround hlt, ih _ (hleft ▸ hlt) _ hrest hrestLook rfl]
              cases elements operand rest with
              | error => rfl
              | ok read =>
                simp only [Except.map, bind, Except.bind, pure, Except.pure, List.append_assoc,
                  List.singleton_append]
        · rw [Run.loop_of_done (elementRound_last before helement hcomma), elements_of_ne hread]
          · exact congrArg answer (arrive_ok _ hbehind).symm
          · rintro span rest rfl
            cases hbehind
            exact hcomma rfl

/-- The expressions of a sequence are read **without a trap**. -/
theorem tracks_parseElements (hsteady : Steady operand) (htracks : Tracks input element operand) :
    Tracks input (parseElements input element) (elements operand) := by
  intro s ahead hs hlook
  rw [parseElements, loop_elementRound hsteady htracks [] hs hlook]
  cases elements operand s <;> rfl

end Sequences

section Nested

variable {input : List Char} {deeper : Option OperandParser} {reader : Option Reader}

/-- A program that reads a token and goes on with it tracks what goes on along the stream. -/
theorem next_bind {α : Type} {position : Nat} {s : TokenStream} {program : Parser α}
    {read : TokenStream → Except Error (α × TokenStream)}
    (hnext : nextToken input position = answer s.look) (hs : Lexed input s)
    (htracks : Tracks input program read)
    (hbroken : ∀ error, read (.broken error) = .error (.badSyntax error)) :
    (nextToken input position >>= program) = answer (arrive (read s)) := by
  rw [hnext]
  cases hlook : s.look with
  | error error =>
    obtain ⟨error, rfl, rfl⟩ := TokenStream.eq_broken_of_look hlook
    rw [hbroken]
    rfl
  | ok ahead => exact htracks hs hlook

/-- What is made of an expression is read as the expression is. -/
theorem Tracks.map {α β : Type} {program : Parser α}
    {read : TokenStream → Except Error (α × TokenStream)} (h : Tracks input program read)
    (f : α → β) :
    Tracks input (fun ahead => do
        let (a, after) ← program ahead
        pure (f a, after))
      (fun s => do
        let (a, last) ← read s
        pure (f a, last)) := by
  intro s ahead hs hlook
  dsimp only
  rw [h hs hlook]
  cases read s with
  | error => rfl
  | ok found =>
    obtain ⟨a, last⟩ := found
    cases last <;> rfl

/-- What is **enclosed** is read with the token that closes it. -/
theorem Tracks.enclosed {α β : Type} {program : Parser α}
    {read : TokenStream → Except Error (α × TokenStream)} (h : Tracks input program read)
    (hkeeps : ∀ {s a last}, Lexed input s → read s = .ok (a, last) → Lexed input last)
    {wanted : Token} {behind : TokenStream → Except Error TokenStream}
    (hexpect : ∀ {s ahead}, Lexed input s → s.look = .ok ahead →
      expect input wanted ahead = answer (behind s >>= TokenStream.look))
    (hbroken : ∀ error, behind (.broken error) = .error (.badSyntax error)) (f : α → β) :
    Tracks input (fun ahead => do
        let (a, last) ← program ahead
        let after ← expect input wanted last
        pure (f a, after))
      (fun s => do
        let (a, s) ← read s
        let s ← behind s
        pure (f a, s)) := by
  intro s ahead hs hlook
  dsimp only
  rw [h hs hlook]
  refine arrive_bind (fun a last after hread hlook => ?_) fun a error => ?_
  · dsimp only
    rw [hexpect (hkeeps hs hread) hlook]
    cases behind last with
    | error => rfl
    | ok rest => cases rest <;> rfl
  · dsimp only
    rw [hbroken]
    rfl

/-- What is **nested** is read if a level is left. -/
theorem parseNested_eq {α : Type} (hdeeper : Corresponds deeper reader)
    {parse : OperandParser → Parser α} {read : Reader → Except Error (α × TokenStream)}
    {ahead : Ahead}
    (h : ∀ parser operand, reader = some operand → (∀ text, Tracks text (parser text) operand) →
      Steady operand → parse parser ahead = answer (arrive (read operand))) :
    parseNested deeper parse ahead = answer (arrive (do
      let operand ← nested reader ahead.span
      read operand)) := by
  cases hdeeper with
  | none => rfl
  | some htracks hsteady => exact h _ _ rfl htracks hsteady

variable {ahead : Ahead} {rest : TokenStream} (hdeeper : Corresponds deeper reader)
  (hnext : nextToken input ahead.span.stop = answer rest.look) (hrest : Lexed input rest)
include hdeeper hnext hrest

/-- The operand of a unary operator is read **without a trap**. -/
theorem parseUnary_eq (op : UnaryOp) : parseUnary deeper input op ahead =
    answer (arrive (unaryOperand reader op ahead.span rest)) := by
  refine parseNested_eq hdeeper fun parser operand _ htracks hsteady => ?_
  have hunary := Tracks.map (tracks_climb_tight (htracks input)) (Expr.unary op)
  refine next_bind hnext hrest hunary fun error => ?_
  rw [hsteady.broken]
  rfl

/-- What stands between parentheses is read **without a trap**. -/
theorem parseParenthesized_eq : parseParenthesized deeper input ahead =
    answer (arrive (parenthesized reader ahead.span rest)) := by
  refine parseNested_eq hdeeper fun parser operand _ htracks hsteady => ?_
  have hinner := Tracks.enclosed (tracks_climb hsteady (htracks input)) hsteady.chain.lexed
    expect_roundClose (fun _ => rfl) Expr.paren
  refine next_bind hnext hrest hinner fun error => ?_
  rw [hsteady.chain.broken]
  rfl

/-- What stands between square brackets is read **without a trap**. -/
theorem parseBracketed_eq : parseBracketed deeper input ahead =
    answer (arrive (bracketed reader ahead.span rest)) := by
  refine parseNested_eq hdeeper fun parser operand _ htracks hsteady => ?_
  have helements := Tracks.enclosed
    (tracks_parseElements hsteady.chain (tracks_climb hsteady (htracks input)))
    hsteady.chain.lexed_of_elements expect_squareClose (fun _ => rfl) Expr.sequence
  rw [hnext]
  cases hlook : rest.look with
  | error error =>
    obtain ⟨error, rfl, rfl⟩ := TokenStream.eq_broken_of_look hlook
    dsimp only
    rw [elements, hsteady.chain.broken]
    rfl
  | ok next =>
    rw [Run.answer_ok_bind]
    by_cases hclose : next.token = some .squareClose
    · obtain ⟨behind, rfl⟩ := TokenStream.eq_token_of_look hlook hclose rfl
      have hexpect := expect_squareClose hrest hlook
      dsimp only
      rw [if_pos hclose, Run.pure_eq, Run.answer_ok_bind, hexpect]
      cases behind <;> rfl
    · dsimp only
      rw [if_neg hclose]
      refine (helements hrest hlook).trans ?_
      split
      · next span behind =>
        cases hlook
        exact absurd rfl hclose
      · rfl

end Nested

/-! ### Operands -/

/-- What a name stands for is found **without a trap**. -/
theorem resolveName_eq (grid : Grid) (m : String) (span : Span) :
    resolveName grid m span = answer (ofName grid m span) := by
  unfold resolveName ofName Grid.cell?
  rw [Cell.read_eq, Run.lift_ok]
  split
  · rfl
  · split
    · rfl
    · split
      · rfl
      · rw [Run.answer_ok_bind]
        cases (Cell.ofName? m.toList).filter grid.contains with
        | some => rfl
        | none =>
          dsimp only
          split <;> rfl

section Operands

variable {grid : Grid} {optimize : Bool} {n : Nat} {input : List Char}
  {deeper : Option OperandParser} {reader : Option Reader} {ahead : Ahead} {rest : TokenStream}

theorem parseSingle_eq (hnext : nextToken input ahead.span.stop = answer rest.look) (e : Expr) :
    parseSingle input e ahead = answer (arrive (.ok (e, rest))) := by
  rw [parseSingle, hnext]
  cases rest <;> rfl

/-- A bare name is read **without a trap**. -/
theorem parseName_eq (grid : Grid) (optimize : Bool) (deeper : Option OperandParser) (m : String)
    (hnext : nextToken input ahead.span.stop = answer rest.look)
    (hname : ∀ next, rest.look = .ok next → next.token ≠ some .roundOpen) :
    parseName optimize deeper input grid m ahead = answer (arrive (do
      rest.intact
      let e ← ofName grid m ahead.span
      pure (e, rest))) := by
  rw [parseName, hnext]
  cases hlook : rest.look with
  | error error =>
    obtain ⟨error, rfl, rfl⟩ := TokenStream.eq_broken_of_look hlook
    rfl
  | ok next =>
    rw [Run.answer_ok_bind, intact_of_look hlook]
    dsimp only
    rw [if_neg (hname next hlook), resolveName_eq]
    cases ofName grid m ahead.span with
    | error => rfl
    | ok e => exact congrArg answer (arrive_ok e hlook).symm

/-- Behind the name of a call its arguments are read. -/
theorem parseName_call (grid : Grid) (m : String) {opening : Nat}
    (hopening : nextToken input ahead.span.stop = answer (.ok (TokenStream.openingAt opening)))
    {inside : Except Error (ArgTree Expr)}
    (harguments : parseArguments optimize deeper input (TokenStream.openingAt opening) =
      answer (arrive (do
        let tree ← inside
        pure (tree, rest)))) :
    parseName optimize deeper input grid m ahead = answer (arrive (do
      let tree ← inside
      pure (.call m tree, rest))) := by
  rw [parseName, hopening, Run.answer_ok_bind, TokenStream.token_openingAt, if_pos rfl, harguments]
  cases inside with
  | error => rfl
  | ok => cases rest <;> rfl

theorem Corresponds.advances (h : Corresponds deeper reader) : DeeperAdvances reader := by
  intro operand heq
  cases h with
  | none => cases heq
  | some _ hsteady =>
    cases heq
    exact hsteady.advances

variable (hdeeper : Corresponds deeper reader)
include hdeeper

/-- An expression is read **without a trap** with the members that follow it. -/
theorem parseTarget_eq {target : Parser Expr} {outcome : Except Error (Expr × TokenStream)}
    (htarget : target ahead = answer (arrive outcome))
    (hkeeps : ∀ e last, outcome = .ok (e, last) → Lexed input last) :
    parseTarget optimize deeper input target ahead = answer (arrive (do
      let (e, last) ← outcome
      members optimize reader e last)) := by
  rw [parseTarget, htarget]
  refine arrive_bind (fun e last next hread hlook => ?_) fun e error => ?_
  · exact tracks_parseMembers hdeeper e (hkeeps e last hread) hlook
  · dsimp only
    rw [members]
    · rfl
    all_goals simp

/-- One operand is read **without a trap**, if what is nested in it is. -/
theorem tracks_parseOperand
    (hsound : ∀ operand, reader = some operand →
      ∃ m, n = m + 1 ∧ Sound grid optimize m .operand operand) :
    Tracks input (parseOperand optimize deeper input grid) (operand grid optimize reader) := by
  intro s ahead hs hlook
  cases hs with
  | finish =>
    cases hlook
    rfl
  | broken => cases hlook
  | @token t span rest _ hname hnext hrest =>
    cases hlook
    have hstop : nextToken input (Ahead.mk (some t) span).span.stop = answer rest.look := hnext
    have hsingle (e : Expr) :
        parseTarget optimize deeper input (parseSingle input e) ⟨some t, span⟩ =
        answer (arrive (members optimize reader e rest)) :=
      parseTarget_eq hdeeper (parseSingle_eq hstop e) fun _ _ heq => by
        cases heq
        exact hrest
    cases t with
    | number | text | field | hash => exact hsingle _
    | name m =>
      have hbare := parseName_eq grid optimize deeper m hstop (hname rfl)
      refine (parseTarget_eq hdeeper hbare fun e last hread => ?_).trans ?_
      · obtain ⟨_, -, hread⟩ := exists_of_bind hread
        obtain ⟨_, -, hread⟩ := exists_of_bind hread
        cases hread
        exact hrest
      · rw [operand]
        cases rest.intact <;> cases ofName grid m span <;> rfl
    | roundOpen =>
      have hinner := parseParenthesized_eq hdeeper hstop hrest
      refine parseTarget_eq hdeeper hinner fun e last hread => ?_
      obtain ⟨items, r, htakes, -⟩ := exists_of_parenthesized hsound hread
      exact (hrest.of_takes htakes).1
    | squareOpen =>
      have hinner := parseBracketed_eq hdeeper hstop hrest
      refine parseTarget_eq hdeeper hinner fun e last hread => ?_
      obtain ⟨items, r, htakes, -⟩ := exists_of_bracketed hsound hdeeper.advances hread
      exact (hrest.of_takes htakes).1
    | bang => exact parseUnary_eq hdeeper hstop hrest .not
    | operator op =>
      cases op with
      | subtract => exact parseUnary_eq hdeeper hstop hrest .negate
      | _ => rfl
    | roundClose | squareClose | comma | dot => rfl
  | @call m span opening text rest _ hopening hclose hslice hnext hrest =>
    cases hlook
    have hstop : nextToken input (Ahead.mk (some (.name m)) span).span.stop =
      answer (.ok (TokenStream.openingAt opening)) := hopening
    have harguments := parseArguments_eq hdeeper optimize hclose hslice hnext
    have hcall := parseName_call grid m hstop harguments
    refine (parseTarget_eq hdeeper hcall fun e last hread => ?_).trans ?_
    · obtain ⟨_, -, hread⟩ := exists_of_bind hread
      cases hread
      exact hrest
    · rw [operand]
      cases arguments optimize reader opening text <;> rfl
  | @openCall m span opening hopening hclose =>
    cases hlook
    have hname : parseName optimize deeper input grid m ⟨some (.name m), span⟩ =
        answer (arrive (.error (openCallError reader opening (byteLength input)))) := by
      rw [parseName, hopening, Run.answer_ok_bind, TokenStream.token_openingAt, if_pos rfl,
        parseArguments_open hdeeper optimize hclose]
      rfl
    exact parseTarget_eq hdeeper hname fun _ _ heq => by cases heq

end Operands

section Levels

variable (grid : Grid) (optimize : Bool)

/-- Readers of operands are **steady**, at any level of nesting. -/
theorem steady_operandAt (n : Nat) : Steady (operandAt grid optimize n) where
  broken error := by cases n <;> rfl
  takes hread := by
    obtain ⟨items, r, htakes, hnested, -⟩ := sound_operandAt grid optimize n hread
    exact ⟨items, derives_ne_nil hnested.derives, htakes⟩

/-- One operand is read **without a trap**, at any level of nesting. -/
theorem tracks_parseOperandAt (n : Nat) (input : List Char) :
    Tracks input (parseOperandAt grid optimize n input) (operandAt grid optimize n) := by
  induction n generalizing input with
  | zero => exact tracks_parseOperand (n := 0) .none fun _ heq => by cases heq
  | succ n ih =>
    have hdeeper : Corresponds _ _ := .some ih (steady_operandAt grid optimize n)
    refine tracks_parseOperand (n := n + 1) hdeeper fun _ heq => ?_
    cases heq
    exact ⟨n, rfl, sound_operandAt grid optimize n⟩

end Levels

end GridFormula.Expr
