import GridFormula.Proofs.Traps
import GridFormula.Template

/-!
# Slicing templates out

The replacement of templates as a program that searches what is left of the text for the next
template and slices it out: the text in front, the inside, and the text behind.

Both searches give positions at which ASCII characters stand, so every slice begins and ends between
characters, and the inside of a template never ends before it begins. What is left gets shorter with
every template. The invariant is that the bytes gone over and the bytes left make up the whole text.

## Main definitions

* `Template.find?`, `Template.findBrace?`: the two searches.
* `Template.replace`: the program.

## Main results

* `Template.replace_eq`: it never traps, and gives what replacing the templates gives.
-/

namespace GridFormula.Template

open Text (byteLength)
open Checked (slice sliceFrom)

/-! ### The program -/

/-- The byte position of the first template of a text. -/
def find? (text : List Char) : Option Nat :=
  (splitAtTemplate text).map fun cut => byteLength cut.1

/-- The byte position of the first closing brace of a text. -/
def findBrace? (text : List Char) : Option Nat :=
  if closeBrace ∈ text then some (byteLength (text.takeWhile (· != closeBrace))) else none

/-- What the program holds between two templates. -/
structure Progress where
  /-- The number of bytes that it has gone over. -/
  offset : Nat
  /-- The text that is left. -/
  rest : List Char
  /-- The text that takes the place of what it has gone over. -/
  replaced : List Char

/-- One round: the next template of a text of so many bytes. -/
def replaceRound (context : Context) (length : Nat) (s : Progress) :
    Run (Progress ⊕ List Char) := do
  match find? s.rest with
  | none => pure (.inr (s.replaced ++ s.rest))
  | some start =>
    let before ← slice s.rest 0 start
    let tail ← sliceFrom s.rest start
    match findBrace? tail with
    | none => throw (Error.ofFault .unterminatedTemplate ⟨s.offset + start, length⟩)
    | some count =>
      let stop := start + count
      let inside ← slice s.rest (start + 2) stop
      let name := String.ofList (Text.trim inside)
      match context.get? name with
      | none =>
        throw (Error.ofFault (.unknownTemplate name) ⟨s.offset + start, s.offset + stop + 1⟩)
      | some value =>
        let behind ← sliceFrom s.rest (stop + 1)
        pure (.inl ⟨s.offset + stop + 1, behind, s.replaced ++ before ++ value.display⟩)

/-- The text with its templates **replaced**. -/
def replace (context : Context) (text : List Char) : Run (List Char) :=
  Run.loop (byteLength ·.rest) (replaceRound context (byteLength text)) ⟨0, text, []⟩

/-! ### Without traps -/

section Rounds

variable (context : Context) {before behind inside rest : List Char}

theorem find?_of_split (hsplit : splitAtTemplate rest = some (before, behind)) :
    find? rest = some (byteLength before) := by
  rw [find?, hsplit]
  rfl

theorem takeWhile_closeBrace (behind : List Char) :
    ('$' :: openBrace :: behind).takeWhile (· != closeBrace) =
      '$' :: openBrace :: behind.takeWhile (· != closeBrace) := rfl

/-- What has no closing brace is **gone over** by the search for one. -/
theorem span_closeBrace (hinside : closeBrace ∉ inside) (rest : List Char) :
    (inside ++ rest).takeWhile (· != closeBrace) = inside ++ rest.takeWhile (· != closeBrace) ∧
      (inside ++ rest).dropWhile (· != closeBrace) = rest.dropWhile (· != closeBrace) := by
  have hpass : ∀ c ∈ inside, (c != closeBrace) = true := fun c hc =>
    bne_iff_ne.2 fun heq => hinside (heq ▸ hc)
  exact ⟨List.takeWhile_append_of_pos hpass, List.dropWhile_append_of_pos hpass⟩

/-- At a template, the program slices out the text in front of it and comes to its mark. -/
theorem slices_of_split (hsplit : splitAtTemplate rest = some (before, behind)) :
    slice rest 0 (byteLength before) = .ok before ∧
      TailAt rest (byteLength before) ('$' :: openBrace :: behind) := by
  have hrest := TailAt.whole rest
  rw [eq_of_splitAtTemplate hsplit] at hrest ⊢
  have hbefore := hrest.slice
  have htail := hrest.append
  rw [Nat.zero_add] at hbefore htail
  exact ⟨hbefore, htail⟩

theorem replaceRound_unclosed (hsplit : splitAtTemplate rest = some (before, behind))
    (hclose : closeBrace ∉ behind) (offset length : Nat) (replaced : List Char) :
    replaceRound context length ⟨offset, rest, replaced⟩ =
      Run.answer (.error
        (Error.ofFault .unterminatedTemplate ⟨offset + byteLength before, length⟩)) := by
  obtain ⟨hbefore, htail⟩ := slices_of_split hsplit
  have hbrace : findBrace? ('$' :: openBrace :: behind) = none :=
    if_neg (by simpa [closeBrace, openBrace] using hclose)
  rw [replaceRound, find?_of_split hsplit]
  dsimp only
  rw [hbefore, htail.sliceFrom]
  simp only [Run.lift_ok, Run.answer_ok_bind]
  rw [hbrace]
  rfl

theorem findBrace?_closed (hinside : closeBrace ∉ inside) :
    findBrace? ('$' :: openBrace :: (inside ++ closeBrace :: behind)) =
      some (2 + byteLength inside) := by
  have hmem : closeBrace ∈ '$' :: openBrace :: (inside ++ closeBrace :: behind) := by simp
  rw [findBrace?, if_pos hmem, takeWhile_closeBrace, (span_closeBrace hinside _).1,
    List.takeWhile_cons_of_neg (by simp), List.append_nil]
  exact congrArg some (Nat.add_assoc 1 1 _).symm

/-- What takes the place of a template that is closed, and what is left behind it. -/
theorem replaceRound_closed
    (hsplit : splitAtTemplate rest = some (before, inside ++ closeBrace :: behind))
    (hinside : closeBrace ∉ inside) (offset length : Nat) (replaced : List Char) {stop : Nat}
    (hstop : stop = byteLength before + 2 + byteLength inside) :
    replaceRound context length ⟨offset, rest, replaced⟩ =
      Run.answer ((Part.template inside
        ⟨offset + byteLength before, offset + stop + 1⟩).expand context |>.map fun value =>
          .inl ⟨offset + stop + 1, behind, replaced ++ before ++ value⟩) := by
  obtain ⟨hbefore, htail⟩ := slices_of_split hsplit
  have hbody : TailAt rest (byteLength before + 2) (inside ++ closeBrace :: behind) :=
    htail.rest.rest
  have hbehind := hbody.append.rest
  have hslice := hbody.slice
  have hclose : closeBrace.utf8Size = 1 := rfl
  rw [hclose] at hbehind
  rw [← hstop] at hslice hbehind
  rw [Nat.add_assoc] at hstop
  rw [replaceRound, find?_of_split hsplit]
  dsimp only
  rw [hbefore, htail.sliceFrom]
  simp only [Run.lift_ok, Run.answer_ok_bind]
  rw [findBrace?_closed hinside]
  dsimp only
  rw [← hstop, hslice]
  simp only [Run.lift_ok, Run.answer_ok_bind]
  rw [Part.expand]
  cases context.get? (String.ofList (Text.trim inside)) with
  | none => rfl
  | some value =>
    dsimp only
    rw [hbehind.sliceFrom]
    rfl

end Rounds

/-! ### All rounds -/

section Braces

variable {before behind behind' rest : List Char}

theorem closeBrace_notMem_takeWhile (text : List Char) :
    closeBrace ∉ text.takeWhile (· != closeBrace) := by
  intro hmem
  have hpass := List.mem_takeWhile_imp hmem
  simp at hpass

theorem unclosed_of_dropWhile (hclose : behind.dropWhile (· != closeBrace) = []) :
    closeBrace ∉ behind ∧ behind.takeWhile (· != closeBrace) = behind := by
  have happend := List.takeWhile_append_dropWhile (p := (· != closeBrace)) (l := behind)
  rw [hclose, List.append_nil] at happend
  have hnot := closeBrace_notMem_takeWhile behind
  rw [happend] at hnot
  exact ⟨hnot, happend⟩

theorem closed_of_dropWhile {c : Char}
    (hclose : behind.dropWhile (· != closeBrace) = c :: behind') :
    behind = behind.takeWhile (· != closeBrace) ++ closeBrace :: behind' := by
  have hhead := List.head?_dropWhile_not (· != closeBrace) behind
  rw [hclose] at hhead
  obtain rfl : c = closeBrace := by simpa using hhead
  have happend := List.takeWhile_append_dropWhile (p := (· != closeBrace)) (l := behind)
  rw [hclose] at happend
  exact happend.symm

theorem byteLength_of_split (hsplit : splitAtTemplate rest = some (before, behind)) :
    byteLength rest = byteLength before + 2 + byteLength behind := by
  have hdollar : Char.utf8Size '$' = 1 := rfl
  have hopen : openBrace.utf8Size = 1 := rfl
  rw [eq_of_splitAtTemplate hsplit]
  simp only [Text.byteLength_append, Text.byteLength_cons]
  omega

end Braces

/-- The replacement of templates from some way into a text on. -/
theorem replaceLoop_eq (context : Context) (length offset : Nat) (rest replaced : List Char)
    (hlength : offset + byteLength rest = length) :
    Run.loop (byteLength ·.rest) (replaceRound context length) ⟨offset, rest, replaced⟩ =
      Run.answer (((partsAt offset rest).mapM (Part.expand context)).map
        fun texts => replaced ++ texts.flatten) := by
  fun_induction partsAt offset rest generalizing replaced with
  | case1 offset rest hsplit =>
    have hround : replaceRound context length ⟨offset, rest, replaced⟩ =
        Run.answer (.ok (.inr (replaced ++ rest))) := by
      rw [replaceRound, find?, hsplit]
      rfl
    rw [Run.loop_of_done hround, List.mapM_cons, List.mapM_nil]
    simp [Part.expand, bind, Except.bind, pure, Except.pure, Except.map]
  | case2 offset rest before behind hsplit start inside bodyStop hclose =>
    obtain ⟨hbrace, hinside⟩ := unclosed_of_dropWhile hclose
    have hbytes := byteLength_of_split hsplit
    have hstop : bodyStop = length := by
      simp only [bodyStop, start, inside, hinside]
      omega
    have hround := replaceRound_unclosed context hsplit hbrace offset length replaced
    rw [Run.loop_of_error hround, hstop, List.mapM_cons, List.mapM_cons]
    rfl
  | case3 offset rest before behind hsplit start inside bodyStop c behind' hclose ih =>
    have hbehind : behind = inside ++ closeBrace :: behind' := closed_of_dropWhile hclose
    have hinside : closeBrace ∉ inside := closeBrace_notMem_takeWhile behind
    have hbytes := byteLength_of_split hsplit
    have hsize : closeBrace.utf8Size = 1 := rfl
    rw [hbehind, Text.byteLength_append, Text.byteLength_cons, hsize] at hbytes
    rw [hbehind] at hsplit
    have hround := replaceRound_closed context hsplit hinside offset length replaced rfl
    have hstop : offset + (byteLength before + 2 + byteLength inside) = bodyStop := by
      simp only [bodyStop, start]
      omega
    rw [hstop] at hround
    rw [List.mapM_cons, List.mapM_cons]
    cases hvalue : (Part.template inside ⟨start, bodyStop + 1⟩).expand context with
    | error error =>
      have hround' := hround.trans (congrArg (fun value => Run.answer (Except.map _ value)) hvalue)
      exact Run.loop_of_error hround'
    | ok value =>
      have hround' := hround.trans (congrArg (fun value => Run.answer (Except.map _ value)) hvalue)
      have hlt : byteLength behind' < byteLength rest := by omega
      rw [Run.loop_of_next hround' hlt, ih _ (by omega)]
      cases (partsAt (bodyStop + 1) behind').mapM (Part.expand context) <;>
        simp [Part.expand, bind, Except.bind, pure, Except.pure, Except.map]

/-- Replacing templates **never traps**, and gives the text that they are expanded to. -/
theorem replace_eq (context : Context) (text : List Char) :
    replace context text = Run.answer (expand context text) :=
  replaceLoop_eq context (byteLength text) 0 text [] (Nat.zero_add _)

end GridFormula.Template
