import GridFormula.Proofs.ByteScan

/-!
# Building trees on bytes

The tree of argument text, built by a program that scans the bytes of a text for separators, cuts it
up into slices, and goes on with each slice and the byte at which it begins. Blanks at the ends of a
slice are left out, and its position moves by as many bytes.

The program never traps if the program that reads a leaf does not, and builds the tree that is built
from the characters. The lists of levels get shorter with every cut, so it ends.

## Main definitions

* `ArgTree.build`: the program, with a program that reads the leaves as a parameter.

## Main results

* `ArgTree.build_eq`: it gives what building the tree from the text gives.
-/

namespace GridFormula

open Text (byteLength isBlank allBlank utf8Bytes)
open Run (answer)

/-- What a program gives with its errors changed. -/
def Run.mapError {α : Type} (f : Error → Error) (run : Run α) : Run α :=
  match (run : Checked (Except Error α)) with
  | .ok outcome => answer (outcome.mapError f)
  | .error trap => (.error trap : Checked (Except Error α))

@[simp] theorem Run.mapError_answer {α : Type} (f : Error → Error) (outcome : Except Error α) :
    (answer outcome).mapError f = answer (outcome.mapError f) := rfl

/-- Items are gone through without a trap when each of them is. -/
theorem Run.mapM_answer {α β : Type} (f : α → Except Error β) (items : List α) :
    items.mapM (fun item => answer (f item)) = answer (items.mapM f) := by
  induction items with
  | nil => rfl
  | cons item others ih =>
    rw [List.mapM_cons, List.mapM_cons, ih]
    cases f item with
    | error => rfl
    | ok b => cases others.mapM f <;> rfl

/-- The positions of pieces count from where the first one begins. -/
theorem Scan.withOffsets_add (offset start : Nat) (pieces : List (List Char)) :
    Scan.withOffsets (offset + start) pieces =
      (Scan.withOffsets start pieces).map fun piece => (offset + piece.1, piece.2) := by
  induction pieces generalizing start with
  | nil => rfl
  | cons piece others ih =>
    rw [Scan.withOffsets, Scan.withOffsets, List.map_cons, ← ih, Nat.add_assoc, Nat.add_assoc,
      Nat.add_assoc]

theorem LeafText.split_eq (sep : Char) (offset : Nat) (text : List Char) :
    LeafText.split sep ⟨offset, text⟩ = (Scan.withOffsets 0 (Scan.pieces sep text)).map
      fun piece => ⟨offset + piece.1, piece.2⟩ := by
  rw [LeafText.split, ← Nat.add_zero offset, Scan.withOffsets_add, List.map_map]
  rfl

namespace ArgTree

variable {ε : Type}

/-! ### The program -/

/-- The tree of the text of a slot that begins at byte `offset`. -/
def buildTrimmed (build : Nat → List Char → Run (ArgTree ε)) (offset : Nat) (text : List Char) :
    Run (ArgTree ε) := do
  if (Text.trim text).isEmpty then pure .omitted
  else
    let blanks ← Checked.sub (byteLength text) (byteLength (Text.trimStart text))
    build (offset + blanks) (Text.trim text)

/-- The tree of a trimmed text by the separators of some levels. -/
def buildLevels (leaf : List Char → Run ε) : List Level → Nat → List Char → Run (ArgTree ε)
  | [], offset, text => do return .leaf (← (leaf text).mapError (Error.shift offset))
  | level :: finer, offset, text =>
    match level.separator? with
    | none => buildLevels leaf finer offset text
    | some sep => do
      if (← Scan.separatorFrom (utf8Bytes text) sep 0).isSome then
        let pieces ← Scan.tokens text sep
        return .group level (← pieces.mapM fun piece =>
          buildTrimmed (buildLevels leaf finer) (offset + piece.1) piece.2)
      else buildLevels leaf finer offset text

/-- **Building** the tree of argument text. -/
def build (leaf : List Char → Run ε) (text : List Char) : Run (ArgTree ε) :=
  buildTrimmed (buildLevels leaf Level.top.deeper) 0 text

/-! ### Without traps -/

section Building

variable {leaf : List Char → Run ε} {compile : List Char → Except Error ε}

theorem buildTrimmed_eq {program : Nat → List Char → Run (ArgTree ε)}
    {builder : LeafText → Except Error (ArgTree ε)}
    (h : ∀ offset text, program offset text = answer (builder ⟨offset, text⟩)) (offset : Nat)
    (text : List Char) :
    buildTrimmed program offset text = answer (buildSlot builder ⟨offset, text⟩) := by
  have hblank : (Text.trim text).isEmpty = allBlank text := by
    rw [Bool.eq_iff_iff, List.isEmpty_iff, Text.trim_eq_nil_iff]
  have hbytes : byteLength text =
      byteLength (text.takeWhile isBlank) + byteLength (Text.trimStart text) := by
    rw [Text.trimStart, ← Text.byteLength_append, List.takeWhile_append_dropWhile]
  have hsub : Checked.sub (byteLength text) (byteLength (Text.trimStart text)) =
      .ok (byteLength (text.takeWhile isBlank)) := by
    rw [Checked.sub_of_le (by omega), hbytes, Nat.add_sub_cancel]
  rw [buildTrimmed, buildSlot, hblank]
  split
  · rfl
  · rw [hsub, Run.lift_ok, Run.answer_ok_bind, h]
    rfl

variable (hleaf : ∀ text, leaf text = answer (compile text))
include hleaf

theorem buildLevels_eq (levels : List Level) (offset : Nat) (text : List Char) :
    buildLevels leaf levels offset text = answer (buildBy compile levels ⟨offset, text⟩) := by
  induction levels generalizing offset text with
  | nil =>
    rw [buildLevels, buildBy, compilePiece, hleaf, Run.mapError_answer]
    cases (compile text).mapError (Error.shift offset) <;> rfl
  | cons level finer ih =>
    rw [buildLevels, buildBy]
    cases hsep : level.separator? with
    | none => exact ih offset text
    | some sep =>
      have hascii : sep.toNat < 0x80 := by cases level <;> cases hsep <;> decide
      have hfirst := Scan.separatorFrom_eq hascii (TailAt.whole text)
      have hsome : (Scan.separatorAt sep 0 .top text).isSome = Scan.hasSeparator sep text := by
        rw [Scan.separatorAt, ← Scan.hasSeparator]
        cases Scan.hasSeparator sep text <;> rfl
      dsimp only
      rw [hfirst, Run.lift_ok, Run.answer_ok_bind, hsome]
      split
      · rw [Scan.tokens_eq hascii, Run.lift_ok, Run.answer_ok_bind]
        simp only [buildTrimmed_eq ih]
        rw [Run.mapM_answer, LeafText.split_eq, List.mapM_map]
        exact Run.answer_map _ (group level)
      · exact ih offset text

/-- **Building** the tree of a text never traps, and gives what building it from the characters
gives. -/
theorem build_eq (text : List Char) : build leaf text = answer (ofText compile text) :=
  buildTrimmed_eq (buildLevels_eq hleaf Level.top.deeper) 0 text

end Building

end ArgTree

end GridFormula
