import GridFormula.Proofs.Templates

/-!
# Options in nested calls

The arguments of a call are compiled as whole texts are, under options that are handed down with
them. If templates were still to be replaced there, the value of a parameter could be taken for
templates again. They are not: what reads a text hands on its options without the replacement, since
the text that it reads is expanded already.

A reader of operands is written down here that is given the options and hands them on. Without the
replacement of templates it is the reader that knows of no templates, at any number of levels. So a
context is looked at once, by what expands the whole text, and not below.

## Main definitions

* `Expr.Deeper`: how what is nested in an operand is read.
* `Expr.compileBy`, `Expr.operandUnder`: compiling under options that are handed down.

## Main results

* `Expr.operandUnder_eq`, `Expr.compileUnder_eq`: nothing below a whole text is expanded.
* `Template.compile_expands_once`: what a text is expanded to, and that it happens once.
-/

namespace GridFormula

namespace Expr

/-! ### The program -/

/-- How what is **nested** in an operand is read. -/
structure Deeper where
  /-- What stands between brackets or behind a unary operator. -/
  operand : Reader
  /-- The leaves of the arguments of a call. -/
  leaf : List Char → Except Error Expr

section Program

variable (deeper : Option Deeper)

/-- What stands between the parentheses of a call. -/
def argumentsBy (opening : Nat) (text : List Char) : Except Error (ArgTree Expr) :=
  match deeper with
  | none => .error (Error.ofFault .nestingTooDeep ⟨opening, opening + 1⟩)
  | some deeper => (ArgTree.ofText deeper.leaf text).mapError (Error.shift (opening + 1))

/-- The expression `e` with the members that follow it. -/
def membersBy (e : Expr) : Reader
  | .token .dot _ (.token (.name n) _ rest) => membersBy (.member e n) rest
  | .token .dot _ (.call n _ opening text rest) => do
    let inside ← argumentsBy deeper opening text
    membersBy (.memberCall e n inside) rest
  | .token .dot _ (.openCall _ _ opening stop) =>
    .error (openCallError (deeper.map Deeper.operand) opening stop)
  | .token .dot _ (.token t span rest) => do
    rest.intact
    .error (Error.ofFault (.expectedMember (some t)) span)
  | .token .dot _ s => .error (s.blame .expectedMember)
  | s => .ok (e, s)

/-- One operand, given how what is nested in it is read. -/
def operandBy (grid : Grid) : Reader
  | .token (.operator .subtract) span rest =>
    unaryOperand (deeper.map Deeper.operand) .negate span rest
  | .token .bang span rest => unaryOperand (deeper.map Deeper.operand) .not span rest
  | .token (.number n) _ rest => membersBy deeper (.literal (.number n)) rest
  | .token (.text s) _ rest => membersBy deeper (.literal (.text s)) rest
  | .token (.field n) _ rest => membersBy deeper (.field n) rest
  | .token .hash _ rest => membersBy deeper .currentRow rest
  | .token (.name n) span rest => do
    rest.intact
    let e ← ofName grid n span
    membersBy deeper e rest
  | .token .roundOpen span rest => do
    let (e, rest) ← parenthesized (deeper.map Deeper.operand) span rest
    membersBy deeper e rest
  | .token .squareOpen span rest => do
    let (e, rest) ← bracketed (deeper.map Deeper.operand) span rest
    membersBy deeper e rest
  | .call n _ opening text rest => do
    let inside ← argumentsBy deeper opening text
    membersBy deeper (.call n inside) rest
  | .openCall _ _ opening stop =>
    .error (openCallError (deeper.map Deeper.operand) opening stop)
  | s => .error (s.blame TokenStream.unexpected)

end Program

/-- **Compiles** a text, given a reader of operands for any options. Arguments are cut out of text
whose templates are replaced, so the reader is not given the option to replace them. -/
def compileBy (env : Env) (operands : Options → Reader) (options : Options) (text : List Char) :
    Except Error Expr := do
  let text ← if options.expandTemplates then Template.expand env.context text else pure text
  let e ← whole (operands { options with expandTemplates := false }) (.ofText text)
  pure (if options.optimize then e.fold.1 else e)

/-- One operand with `levels` levels of nesting left, under options that are **handed down** to the
leaves of arguments. -/
def operandUnder (env : Env) : Nat → Options → Reader
  | 0, _ => operandBy none env.grid
  | levels + 1, options =>
    operandBy (some ⟨operandUnder env levels options,
      compileBy env (operandUnder env levels) options⟩) env.grid

/-- Compiles a text that stands `depth` levels deep inside another, under options that are handed
down. -/
def compileUnder (env : Env) (options : Options) (depth : Nat) (text : List Char) :
    Except Error Expr :=
  compileBy env (operandUnder env (nestingLimit - depth)) options text

/-! ### Nothing nested is expanded -/

/-- Whether the leaves of arguments are **read by** the reader of what is nested. -/
def Deeper.ReadsLeaves (optimize : Bool) (deeper : Deeper) : Prop :=
  deeper.leaf = fun text => do
    let e ← whole deeper.operand (.ofText text)
    pure (if optimize then e.fold.1 else e)

section Agreement

variable {optimize : Bool} {deeper : Option Deeper}
  (hleaf : ∀ inner, deeper = some inner → inner.ReadsLeaves optimize)
include hleaf

theorem argumentsBy_eq :
    argumentsBy deeper = arguments optimize (deeper.map Deeper.operand) := by
  funext opening text
  cases deeper with
  | none => rfl
  | some inner =>
    rw [argumentsBy, hleaf inner rfl]
    rfl

theorem membersBy_eq (e : Expr) (s : TokenStream) :
    membersBy deeper e s = members optimize (deeper.map Deeper.operand) e s := by
  have harguments := argumentsBy_eq hleaf
  fun_induction membersBy deeper e s with
  | case1 e span n span' rest ih =>
    rw [members]
    exact ih
  | case2 e span n span' opening text rest ih =>
    rw [members, harguments]
    cases arguments optimize (deeper.map Deeper.operand) opening text with
    | error => rfl
    | ok inside => exact ih inside
  | case3 => rw [members]
  | case4 e span t span' rest hname =>
    rw [members]
    exact hname
  | case5 e span s h₁ h₂ h₃ h₄ => rw [members] <;> assumption
  | case6 e s h₁ h₂ h₃ h₄ h₅ => rw [members] <;> assumption

/-- If the leaves of arguments are read by the reader of what is nested, so is an operand. -/
theorem operandBy_eq (grid : Grid) :
    operandBy deeper grid = operand grid optimize (deeper.map Deeper.operand) := by
  funext s
  unfold operandBy
  simp only [argumentsBy_eq hleaf, membersBy_eq hleaf]
  rfl

end Agreement

/-- Without the replacement of templates, **no level** below replaces any. -/
theorem operandUnder_eq (env : Env) (levels : Nat) {options : Options}
    (h : options.expandTemplates = false) :
    operandUnder env levels options = operandAt env.grid options.optimize levels := by
  induction levels with
  | zero => exact operandBy_eq (by rintro _ ⟨⟩) env.grid
  | succ levels ih =>
    have hoptions : { options with expandTemplates := false } = options := by rw [← h]
    have hleaf : Deeper.ReadsLeaves options.optimize ⟨operandUnder env levels options,
        compileBy env (operandUnder env levels) options⟩ := by
      funext text
      simp only [compileBy, h, hoptions]
      rfl
    rw [operandUnder, operandBy_eq (by rintro _ ⟨⟩; exact hleaf), Option.map_some, ih]
    rfl

/-- Compiling with options that are handed down is **compiling**. -/
theorem compileUnder_eq (env : Env) (options : Options) (depth : Nat) :
    compileUnder env options depth = compileAt env options depth := by
  funext text
  rw [compileUnder, compileBy, operandUnder_eq env _ rfl]
  rfl

end Expr

namespace Template

open Text (byteLength)

/-- **Templates are replaced once.** A text has one reading as plain text and templates, and the
parts of the reading make up the text. It is expanded exactly when every template is closed and
bound, to the plain text as it is with the display of each value in the place of its template;
otherwise the first template that is not is the error, at the bytes that it takes. Compiling with
templates is compiling what the text is expanded to without them, and that does not depend on the
context, down to the arguments of calls in arguments. -/
theorem compile_expands_once (env : Env) (text : List Char) :
    (∃! parts, Reading 0 text parts) ∧
      (∀ parts, Reading 0 text parts →
        parts.flatMap Part.source = text ∧
        ((∃ out, expand env.context text = .ok out) ↔
          ∀ part ∈ parts, ∃ text, part.Stands env.context text) ∧
        (∀ out, expand env.context text = .ok out ↔
          ∃ texts, List.Forall₂ (Part.Stands env.context) parts texts ∧ out = texts.flatten) ∧
        ∀ error, expand env.context text = .error error ↔
          ∃ front part back fault, parts = front ++ part :: back ∧
            (∀ other ∈ front, ∃ text, other.Stands env.context text) ∧
            part.Offends env.context fault ∧
            error = Error.ofFault fault ⟨byteLength (front.flatMap Part.source),
              byteLength ((front ++ [part]).flatMap Part.source)⟩) ∧
      replace env.context text = Run.answer (expand env.context text) ∧
      (∀ options depth,
        Expr.compileAt env options depth text = Expr.compileUnder env options depth text) ∧
      (∀ optimize depth, Expr.compileUnder env ⟨true, optimize⟩ depth text =
        expand env.context text >>= Expr.compileUnder env ⟨false, optimize⟩ depth) ∧
      ∀ optimize depth context, Expr.compileUnder env ⟨false, optimize⟩ depth text =
        Expr.compileUnder { env with context } ⟨false, optimize⟩ depth text := by
  refine ⟨⟨parts text, reading_partsAt 0 text, fun _ h => h.eq_partsAt⟩, fun parts h => ?_,
    replace_eq env.context text, fun options depth => ?_, fun optimize depth => ?_,
    fun optimize depth context => ?_⟩
  · refine ⟨?_, h.exists_expand_iff, fun _ => h.expand_eq_ok_iff, fun _ => h.expand_eq_error_iff⟩
    rw [h.eq_partsAt]
    exact source_parts text
  · rw [Expr.compileUnder_eq]
  · rw [Expr.compileUnder_eq, Expr.compileUnder_eq]
    rfl
  · rw [Expr.compileUnder_eq, Expr.compileUnder_eq]
    rfl

/-- The mark in the value of a parameter begins no template, although it stands in an argument and
its name is bound. -/
theorem compile_expands_once_in_argument :
    Reading 0 ['$', openBrace, 'x', closeBrace]
        [.plain [], .template ['x'] ⟨0, 4⟩, .plain []] ∧
      expand ⟨[("x", .text "f(\"$\x7by\x7d\")"), ("y", .text "1")]⟩
          ['$', openBrace, 'x', closeBrace] = .ok "f(\"$\x7by\x7d\")".toList ∧
      Expr.compileUnder ⟨⟨9, 9⟩, ⟨[("x", .text "f(\"$\x7by\x7d\")"), ("y", .text "1")]⟩⟩
          ⟨true, true⟩ 0 ['$', openBrace, 'x', closeBrace] =
        .ok (.call "f" (.leaf (.literal (.text "$\x7by\x7d")))) := by
  have hreading : Reading 0 ['$', openBrace, 'x', closeBrace]
      [.plain [], .template ['x'] ⟨0, 4⟩, .plain []] :=
    @Reading.template 0 [] ['x'] [] _ (by simp [mark]) (by decide) (.plain (by simp [mark]))
  obtain ⟨-, hreads, -, -, hcompile, -⟩ := compile_expands_once
    ⟨⟨9, 9⟩, ⟨[("x", .text "f(\"$\x7by\x7d\")"), ("y", .text "1")]⟩⟩
    ['$', openBrace, 'x', closeBrace]
  obtain ⟨-, -, hout, -⟩ := hreads _ hreading
  have hexpand := (hout "f(\"$\x7by\x7d\")".toList).2
    ⟨_, .cons (.plain []) (.cons (.template rfl) (.cons (.plain []) .nil)), rfl⟩
  refine ⟨hreading, hexpand, (hcompile true 0).trans ?_⟩
  rw [hexpand]
  cbv

end Template

end GridFormula
