import GridFormula.ArgTree.Leaves
import GridFormula.Scan.Pieces
import GridFormula.Text.Blank

/-!
# From text to trees

A text is split on the coarsest separator that occurs in it at the top of the scan. Every piece is
trimmed and split again on the finer separators. A blank piece is an omitted argument, and a piece
without separators is a leaf. Separators that do not occur leave no trace, so `a,b` is a flat
group of two.

The *outline* of a text is its tree with pieces of text at the leaves. It depends on the text
alone: not on what the pieces mean, nor on any grid or context. *Building* makes each leaf an
expression as soon as it is met, and stops at the first piece that is none.

## Main definitions

* `LeafText`: a piece of text and its byte position.
* `ArgTree.outline`: the outline of a text.
* `ArgTree.ofText`: the tree that is built from a text.
-/

namespace GridFormula

open Text (byteLength isBlank allBlank)

/-- A piece of text with its byte position in the whole text. -/
structure LeafText where
  /-- The byte position of the first character. -/
  offset : Nat
  /-- The text of the piece. -/
  text : List Char
deriving DecidableEq

namespace LeafText

/-- The piece without the blanks at its ends. -/
def trim (piece : LeafText) : LeafText :=
  ⟨piece.offset + byteLength (piece.text.takeWhile isBlank), Text.trim piece.text⟩

/-- The pieces between the separators, each with its byte position. -/
def split (sep : Char) (piece : LeafText) : List LeafText :=
  (Scan.withOffsets piece.offset (Scan.pieces sep piece.text)).map fun (offset, text) =>
    ⟨offset, text⟩

end LeafText

namespace ArgTree

/-! ### Outlines -/

/-- A slot: an omitted argument when its text is blank, and otherwise what `outline` makes of the
trimmed text. -/
def outlineSlot (outline : LeafText → ArgTree LeafText) (slot : LeafText) : ArgTree LeafText :=
  if allBlank slot.text then .omitted else outline slot.trim

/-- The outline of a trimmed text by the separators of `levels`, the coarsest first. -/
def outlineBy : List Level → LeafText → ArgTree LeafText
  | [], piece => .leaf piece
  | level :: finer, piece =>
    match level.separator? with
    | none => outlineBy finer piece
    | some sep =>
      if Scan.hasSeparator sep piece.text then
        .group level ((piece.split sep).map (outlineSlot (outlineBy finer)))
      else outlineBy finer piece

/-- The **outline** of argument text. -/
def outline (text : List Char) : ArgTree LeafText :=
  outlineSlot (outlineBy Level.top.deeper) ⟨0, text⟩

/-! ### Building -/

section Building

variable {ε : Type} (compile : List Char → Except Error ε)

/-- A piece as one expression. An error in it points into the whole text. -/
def compilePiece (piece : LeafText) : Except Error ε :=
  (compile piece.text).mapError (Error.shift piece.offset)

/-- The tree of a slot: an omitted argument when its text is blank, and otherwise what `build`
makes of the trimmed text. -/
def buildSlot (build : LeafText → Except Error (ArgTree ε)) (slot : LeafText) :
    Except Error (ArgTree ε) :=
  if allBlank slot.text then .ok .omitted else build slot.trim

/-- The tree of a trimmed text by the separators of `levels`, the coarsest first. -/
def buildBy : List Level → LeafText → Except Error (ArgTree ε)
  | [], piece => (compilePiece compile piece).map .leaf
  | level :: finer, piece =>
    match level.separator? with
    | none => buildBy finer piece
    | some sep =>
      if Scan.hasSeparator sep piece.text then
        ((piece.split sep).mapM (buildSlot (buildBy finer))).map (.group level)
      else buildBy finer piece

/-- The **tree of argument text**, with each leaf text turned into an expression by `compile`. The
first leaf that fails decides the error, which points into the whole text. -/
def ofText (text : List Char) : Except Error (ArgTree ε) :=
  buildSlot (buildBy compile Level.top.deeper) ⟨0, text⟩

end Building

end ArgTree

end GridFormula
