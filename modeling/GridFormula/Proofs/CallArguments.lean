import GridFormula.Proofs.Acceptance
import GridFormula.Proofs.Arguments

/-!
# Arguments inside and outside of calls

The argument text of a call is cut out of the text that it stands in by the scan, and then read as a
text of its own, one level deeper. So a call gives what its argument text gives by itself, and an
error in the arguments is moved to where they stand.

This needs the scan to find the end of the arguments. It does whenever they can be read, since what
is read is closed. With folding, the leaves of the arguments are folded when they are read and once
more with the call around them, which changes nothing the second time.

## Main definitions

* `IsOneName`: the texts that are one name and nothing else.

## Main results

* `IsOneName.ofText_call`: the stream of a name with arguments behind it.
* `Scan.closed_of_ofText`: what is read as arguments is closed.
* `Expr.compileAt_call`: a call, by its arguments read on their own.
-/

namespace GridFormula

open Text (byteLength isBlank allBlank)

/-! ### Names -/

/-- A text **is a name** when that is its one token. -/
def IsOneName (text : List Char) (name : String) : Prop :=
  ∃ span stop, TokenStream.ofText text = .token (.name name) span (.finish stop)

/-- A word that is a name has its characters, and is one in front of any other text that does not go
on with it. -/
theorem Lexeme.Made.name_meets {source behind : List Char} {name : String}
    (h : Made source (.name name) behind) :
    source = name.toList ∧ (∀ c ∈ source, isNamePart c = true) ∧
      ∀ {behind'}, (∀ d ∈ behind'.head?, isNamePart d = false) → Made source (.name name) behind' := by
  cases h with
  | sign hmem => exact absurd hmem (by simp [signs])
  | name hdigit hstart hrest =>
    refine ⟨String.toList_ofList.symm, ?_, fun hbehind => .name hdigit hstart hrest hbehind⟩
    exact List.forall_mem_cons.2 ⟨isNamePart_of_isNameStart hstart, hrest⟩

/-- A text that is a name has nothing but blanks around its characters. -/
theorem IsOneName.exists_blanks {text : List Char} {name : String} (h : IsOneName text name) :
    ∃ blanks gap, text = blanks ++ (name.toList ++ gap) ∧ allBlank blanks = true ∧
      allBlank gap = true ∧ (∀ c ∈ name.toList, Lexeme.isNamePart c = true) ∧
      ∀ {behind}, (∀ d ∈ behind.head?, Lexeme.isNamePart d = false) →
        Lexeme.Made name.toList (.name name) behind := by
  obtain ⟨span, stop, hstream⟩ := h
  have htakes : (TokenStream.ofTextAt 0 text).Takes [.token (.name name)] (.finish stop) := by
    rw [show TokenStream.ofTextAt 0 text = _ from hstream]
    exact .token (.nil _)
  obtain ⟨spelling, gap, rfl, hgap, hspells⟩ :=
    (TokenStream.spelled_iff_takes 0).2 ⟨stop, htakes⟩
  obtain ⟨blanks, source, rest, rfl, hblanks, hmade, hrest⟩ := exists_of_spells_token hspells
  cases hrest
  obtain ⟨rfl, hpart, hmeets⟩ := hmade.name_meets
  exact ⟨blanks, gap, by simp, hblanks, hgap, hpart, hmeets⟩

theorem Text.trimEnd_eq_self {text : List Char} (h : ∀ c ∈ text, isBlank c = false) :
    trimEnd text = text := by
  induction text with
  | nil => rfl
  | cons c rest ih =>
    obtain ⟨hc, hrest⟩ := List.forall_mem_cons.1 h
    rw [trimEnd, ih hrest]
    cases rest with
    | nil => simp [hc]
    | cons => rfl

/-- A text without blanks is not trimmed. -/
theorem Text.trim_eq_self {text : List Char} (h : ∀ c ∈ text, isBlank c = false) :
    trim text = text := by
  have hstart : trimStart text = text := by
    cases text with
    | nil => rfl
    | cons c rest => exact List.dropWhile_cons_of_neg (by simp [h c (by simp)])
  rw [trim, hstart, trimEnd_eq_self h]

/-- The name that a text is has all its characters but the blanks around them. -/
theorem IsOneName.toList_eq_trim {text : List Char} {name : String} (h : IsOneName text name) :
    name.toList = Text.trim text := by
  obtain ⟨blanks, gap, rfl, hblanks, hgap, hpart, -⟩ := h.exists_blanks
  have hpadded : Text.Padded name.toList (blanks ++ (name.toList ++ gap)) :=
    ⟨blanks, gap, hblanks, hgap, (List.append_assoc ..).symm⟩
  rw [hpadded.trim_eq, Text.trim_eq_self fun c hc => Lexeme.isBlank_of_isNamePart (hpart c hc)]

/-! ### The stream of a call -/

/-- The scan closes the first parenthesis of a text with its last one exactly when it cuts what is
between them off. -/
theorem Scan.closing?_parentheses_iff {arguments : List Char} :
    closing? .round ('(' :: (arguments ++ [')'])) 0 = some (byteLength arguments + 1) ↔
      splitAtCloser .round (arguments ++ [')']) = some (arguments, []) := by
  have hclosing : closing? .round ('(' :: (arguments ++ [')'])) 0 =
      (splitAtCloser .round (arguments ++ [')'])).map fun cut => 0 + 1 + byteLength cut.1 := rfl
  rw [hclosing]
  constructor
  · intro h
    obtain ⟨⟨before, behind⟩, hsplit, hlength⟩ := Option.map_eq_some_iff.1 h
    have hbefore : 0 + 1 + byteLength before = byteLength arguments + 1 := hlength
    have htext := eq_append_closer_of_splitAtTop rfl hsplit
    have hclose : Char.utf8Size ')' = 1 := by decide
    have hcloser : (Bracket.round.closer).utf8Size = 1 := by decide
    have hbytes := congrArg byteLength htext
    simp only [Text.byteLength_append, Text.byteLength_cons, Text.byteLength_nil] at hbytes
    -- there is no room behind the parenthesis that closes
    have hbehind : behind = [] := by
      cases behind with
      | nil => rfl
      | cons c rest =>
        have hpos := c.utf8Size_pos
        simp only [Text.byteLength_cons] at hbytes
        omega
    subst hbehind
    rw [hsplit, (List.append_inj' htext rfl).1]
  · intro h
    rw [h]
    exact congrArg some (Nat.add_comm ..)

/-- A name and a text between parentheses are one call, when the scan closes the first parenthesis
with the last one. -/
theorem IsOneName.ofText_call {text arguments : List Char} {name : String} (h : IsOneName text name)
    (hsplit : Scan.splitAtCloser .round (arguments ++ [')']) = some (arguments, [])) :
    ∃ span stop, TokenStream.ofText (text ++ '(' :: (arguments ++ [')'])) =
      .call name span (byteLength text) arguments (.finish stop) := by
  obtain ⟨blanks, gap, rfl, hblanks, hgap, -, hmade⟩ := h.exists_blanks
  have hbehind : ∀ d ∈ (gap ++ '(' :: (arguments ++ [')'])).head?, Lexeme.isNamePart d = false := by
    intro d hd
    cases gap with
    | nil =>
      obtain rfl : '(' = d := Option.some.inj hd
      decide
    | cons c rest =>
      obtain rfl : c = d := Option.some.inj hd
      exact Lexeme.isNamePart_of_isBlank (List.all_eq_true.1 hgap c (by simp))
  have hopening : byteLength (blanks ++ (name.toList ++ gap)) =
      0 + byteLength blanks + byteLength name.toList + byteLength gap := by
    simp only [Text.byteLength_append]
    omega
  obtain ⟨span, hstream⟩ := TokenStream.ofTextAt_call 0 hblanks hgap
    (Lexeme.word_of_made (hmade hbehind)) hsplit hopening
  rw [TokenStream.ofTextAt_of_allBlank _ (rfl : allBlank [] = true)] at hstream
  exact ⟨span, _, by rw [TokenStream.ofText, ← hstream]; simp⟩

/-! ### Arguments on their own -/

/-- What is **read as arguments** is closed. -/
theorem Scan.closed_of_ofText {grid : Grid} {optimize : Bool} {levels : Nat} {arguments : List Char}
    {tree : ArgTree Expr}
    (h : ArgTree.ofText (Expr.readAt grid optimize levels) arguments = .ok tree) :
    Closed arguments := by
  rw [ArgTree.ofText_eq_ok_iff] at h
  refine ArgTree.closed_of_fullSplit fun piece hpiece => ?_
  obtain ⟨e, he⟩ := ArgTree.exists_of_traverse_eq_ok h hpiece
  obtain ⟨r, hr, -, -⟩ := Expr.readAt_eq_ok_iff.1 he
  exact (Expr.closed_of_reads hr).1

namespace Expr

/-- The arguments that were read with folding are not folded any further with a call around them. -/
theorem fold_call_of_ofText {grid : Grid} {levels : Nat} {arguments : List Char}
    {tree : ArgTree Expr} (h : ArgTree.ofText (readAt grid true levels) arguments = .ok tree)
    (name : String) : (fold (.call name tree)).1 = .call name tree := by
  have hsettled : readAt grid true levels = fun text =>
      (readAt grid false levels text).map (settled true) :=
    funext (readAt_settled grid levels)
  rw [hsettled, ArgTree.ofText_eq_map_ofText] at h
  cases hplain : ArgTree.ofText (readAt grid false levels) arguments with
  | error => rw [hplain] at h; cases h
  | ok plain =>
    rw [hplain] at h
    obtain rfl : plain.map (settled true) = tree := Except.ok.inj h
    rw [fold, foldArguments_eq_map, ArgTree.map_map]
    refine congrArg (call name) (ArgTree.map_congr fun e _ => ?_)
    rw [settled_true, fold_fold]

/-- A name with a text between parentheses behind it is read as a **call**, with the arguments that
the text is read as one level deeper. -/
theorem readAt_call (grid : Grid) (optimize : Bool) (levels : Nat) {text arguments : List Char}
    {name : String} (h : IsOneName text name)
    (hsplit : Scan.splitAtCloser .round (arguments ++ [')']) = some (arguments, [])) :
    readAt grid optimize (levels + 1) (text ++ '(' :: (arguments ++ [')'])) =
      ((ArgTree.ofText (readAt grid optimize levels) arguments).map (call name)).mapError
        (Error.shift (byteLength text + 1)) := by
  obtain ⟨span, stop, hstream⟩ := h.ofText_call hsplit
  rw [readAt, whole, chain, hstream, operandAt, operand, arguments_operandAt]
  cases hinside : ArgTree.ofText (readAt grid optimize levels) arguments with
  | error => rfl
  | ok tree =>
    have hfold : finished optimize (call name tree) = call name tree := by
      cases optimize with
      | false => rfl
      | true => exact fold_call_of_ofText hinside name
    have hmembers := (Follows.ends (.finish stop)).members optimize
      (some (operandAt grid optimize levels)) (.call name tree)
    have hoperations := (Ends.finish stop).operations
      (operand grid optimize (some (operandAt grid optimize levels)))
    dsimp only [Except.mapError, Except.map, bind, Except.bind]
    rw [hmembers]
    dsimp only
    rw [hoperations]
    exact congrArg Except.ok hfold

/-- **A call's arguments are read the same inside the call as on their own.** Let a text be a name,
and let macros be off. When the scan closes the first parenthesis of `(arguments)` with the last
one, the name with them behind it gives the call of what the arguments are read as one level deeper,
or their error, moved behind the opening parenthesis. The scan does so for all arguments that can be
read. -/
theorem compileAt_call (env : Env) {options : Options} (hmacros : options.expandTemplates = false)
    {depth : Nat} (hdepth : depth < nestingLimit) {text : List Char} {name : String}
    (h : IsOneName text name) (arguments : List Char) :
    name.toList = Text.trim text ∧
    (Scan.closing? .round ('(' :: (arguments ++ [')'])) 0 = some (byteLength arguments + 1) →
      (∀ tree, ArgTree.parseAt env options (depth + 1) arguments = .ok tree →
        compileAt env options depth (text ++ '(' :: (arguments ++ [')'])) = .ok (.call name tree)) ∧
      ∀ error, (ArgTree.parseAt env options (depth + 1) arguments : Except Error (ArgTree Expr)) =
          .error error →
        compileAt env options depth (text ++ '(' :: (arguments ++ [')'])) =
          .error (error.shift (byteLength text + 1))) ∧
    ∀ tree : ArgTree Expr, ArgTree.parseAt env options (depth + 1) arguments = .ok tree →
      Scan.closing? .round ('(' :: (arguments ++ [')'])) 0 = some (byteLength arguments + 1) := by
  have hcompile : ∀ d, compileAt env options d =
      readAt env.grid options.optimize (nestingLimit - d) := by
    intro d
    funext text
    rw [compileAt, hmacros]
    rfl
  have hparse : (ArgTree.parseAt env options (depth + 1) arguments : Except Error (ArgTree Expr)) =
      ArgTree.ofText (readAt env.grid options.optimize (nestingLimit - (depth + 1))) arguments :=
    congrArg (ArgTree.ofText · arguments) (hcompile (depth + 1))
  have hlevels : nestingLimit - depth = nestingLimit - (depth + 1) + 1 := by omega
  rw [hcompile, hparse, hlevels]
  refine ⟨h.toList_eq_trim, fun hclosing => ?_, fun tree htree => ?_⟩
  · rw [readAt_call _ _ _ h (Scan.closing?_parentheses_iff.1 hclosing)]
    constructor
    · intro tree htree
      rw [htree]
      rfl
    · intro error herror
      rw [herror]
      rfl
  · rw [Scan.closing?_parentheses_iff]
    exact Scan.splitAtCloser_of_closed (Scan.closed_of_ofText htree) .round []

/-- In `f (x,@)` the second argument fails at its first byte, which is the third of the argument
text and the sixth of the call. -/
theorem compileAt_call_second_argument :
    compileAt ⟨⟨9, 9⟩, .empty⟩ ⟨false, true⟩ 63 ['f', ' ', '(', 'x', ',', '@', ')'] =
      .error (Error.ofFault (.unexpectedCharacter '@') ⟨5, 6⟩) :=
  have hname : IsOneName ['f', ' '] "f" := ⟨⟨0, 1⟩, 2, by cbv⟩
  have hdepth : 63 < nestingLimit := by decide
  ((compileAt_call ⟨⟨9, 9⟩, .empty⟩ rfl hdepth hname ['x', ',', '@']).2.1 (by decide)).2
    (Error.ofFault (.unexpectedCharacter '@') ⟨2, 3⟩) (by cbv)

end Expr

end GridFormula
