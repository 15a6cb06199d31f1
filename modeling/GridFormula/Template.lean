import GridFormula.Context
import GridFormula.Error
import GridFormula.Text.Blank
import GridFormula.Text.Utf8

/-!
# Templates

Before a formula is read, the names of parameters that it holds between `$` with an opening brace
and a closing brace can be replaced by the displays of their values. A text is read once, from left
to right, as plain parts and templates; what takes the place of a template is not read again.

## Main definitions

* `Template.Part`: the parts of a text.
* `Template.parts`: reading a text as parts.
* `Template.expand`: the text with its templates replaced.

## Main results

* `Template.source_parts`: the parts of a text make up the text.
-/

namespace GridFormula.Template

open Text (byteLength trim)

/-- The brace that opens a template behind its `$`. -/
def openBrace : Char := '\x7b'

/-- The brace that closes a template. -/
def closeBrace : Char := '\x7d'

/-- A **part** of a text. -/
inductive Part where
  /-- Text that stands for itself. -/
  | plain (text : List Char)
  /-- A template with what stands between its braces. -/
  | template (inside : List Char) (span : Span)
  /-- A template without its closing brace, up to the end of the text. -/
  | unclosed (inside : List Char) (span : Span)

/-- The text before the first template, and the text behind its opening brace. -/
def splitAtTemplate : List Char → Option (List Char × List Char)
  | [] => none
  | [_] => none
  | c :: d :: rest =>
    if c = '$' && d = openBrace then some ([], rest)
    else (splitAtTemplate (d :: rest)).map fun (before, behind) => (c :: before, behind)

theorem eq_of_splitAtTemplate {text before behind : List Char}
    (h : splitAtTemplate text = some (before, behind)) :
    text = before ++ '$' :: openBrace :: behind := by
  fun_induction splitAtTemplate text generalizing before with
  | case1 | case2 => cases h
  | case3 c d rest hcd =>
    simp only [Bool.and_eq_true, decide_eq_true_eq] at hcd
    simp only [Option.some.injEq, Prod.mk.injEq] at h
    obtain ⟨rfl, rfl⟩ := h
    obtain ⟨rfl, rfl⟩ := hcd
    rfl
  | case4 c d rest hcd ih =>
    simp only [Option.map_eq_some_iff, Prod.mk.injEq] at h
    obtain ⟨⟨before', behind'⟩, h, rfl, rfl⟩ := h
    rw [ih h, List.cons_append]

/-- The parts of a text that starts at byte `offset`. -/
def partsAt (offset : Nat) (text : List Char) : List Part :=
  match _hsplit : splitAtTemplate text with
  | none => [.plain text]
  | some (before, behind) =>
    let start := offset + byteLength before
    let inside := behind.takeWhile (· != closeBrace)
    let bodyStop := start + 2 + byteLength inside
    match _hclose : behind.dropWhile (· != closeBrace) with
    | [] => [.plain before, .unclosed inside ⟨start, bodyStop⟩]
    | _ :: rest =>
      .plain before :: .template inside ⟨start, bodyStop + 1⟩ :: partsAt (bodyStop + 1) rest
termination_by text.length
decreasing_by
  have hsplit := congrArg List.length (eq_of_splitAtTemplate _hsplit)
  have hclose := (List.dropWhile_sublist (· != closeBrace) (l := behind)).length_le
  rw [_hclose] at hclose
  simp only [List.length_append, List.length_cons] at hsplit hclose
  omega

/-- The **parts** of a text. -/
def parts (text : List Char) : List Part := partsAt 0 text

/-- The text that a part was read from. -/
def Part.source : Part → List Char
  | .plain text => text
  | .template inside _ => '$' :: openBrace :: inside ++ [closeBrace]
  | .unclosed inside _ => '$' :: openBrace :: inside

/-- What takes the place of a part. A template takes the display of the value that its trimmed
inside is bound to. -/
def Part.expand (context : Context) : Part → Except Error (List Char)
  | .plain text => .ok text
  | .template inside span =>
    let name := String.ofList (trim inside)
    match context.get? name with
    | some value => .ok value.display
    | none => .error (Error.ofFault (.unknownTemplate name) span)
  | .unclosed _ span => .error (Error.ofFault .unterminatedTemplate span)

/-- The text with its templates **replaced**. The first template that cannot be decides the
error. -/
def expand (context : Context) (text : List Char) : Except Error (List Char) :=
  ((parts text).mapM (Part.expand context)).map List.flatten

/-- The parts of a text **make up the text**. -/
theorem source_parts (text : List Char) : (parts text).flatMap Part.source = text := by
  suffices h : ∀ offset, (partsAt offset text).flatMap Part.source = text from h 0
  intro offset
  fun_induction partsAt offset text with
  | case1 => simp [Part.source]
  | case2 offset text before behind hsplit start inside bodyStop hclose =>
    have hinside : inside = behind := by
      have := List.takeWhile_append_dropWhile (p := (· != closeBrace)) (l := behind)
      rwa [hclose, List.append_nil] at this
    simp [Part.source, eq_of_splitAtTemplate hsplit, hinside]
  | case3 offset text before behind hsplit start inside bodyStop c rest hclose ih =>
    have hbehind : behind = inside ++ c :: rest := by
      have := List.takeWhile_append_dropWhile (p := (· != closeBrace)) (l := behind)
      rw [hclose] at this
      exact this.symm
    have hc : c = closeBrace := by
      have := List.head?_dropWhile_not (· != closeBrace) behind
      rw [hclose] at this
      simpa using this
    simp [Part.source, eq_of_splitAtTemplate hsplit, hbehind, hc, ih]

end GridFormula.Template
