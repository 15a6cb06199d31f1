import GridFormula.ArgTree.Outline
import GridFormula.Leaf

/-!
# Reading argument trees

The tree of the text between the parentheses of a call, with each leaf compiled in an environment.
A blank text is an omitted argument.

## Main definitions

* `ArgTree.parseWith`: reading with the given options.
* `ArgTree.parseExpanding`: reading with or without templates, constants folded.
* `ArgTree.parse`: reading without templates, constants folded.
-/

namespace GridFormula.ArgTree

variable {ε κ : Type} [Leaf ε κ]

/-- Reads the arguments of a call that stands `depth` calls deep inside a leaf. -/
def parseAt (env : Env) (options : Options) (depth : Nat) (text : List Char) :
    Except Error (ArgTree ε) :=
  ofText (Leaf.compile env options depth) text

/-- Reads argument text with the given **options**. -/
def parseWith (env : Env) (options : Options) (text : List Char) : Except Error (ArgTree ε) :=
  parseAt env options 0 text

/-- Reads argument text, with templates replaced if `expandTemplates` is set. -/
def parseExpanding (env : Env) (expandTemplates : Bool) (text : List Char) :
    Except Error (ArgTree ε) :=
  parseWith env { expandTemplates } text

/-- Reads argument text. -/
def parse (env : Env) (text : List Char) : Except Error (ArgTree ε) :=
  parseWith env {} text

end GridFormula.ArgTree
