import GridFormula.Env
import GridFormula.Expr.Parse
import GridFormula.Template

/-!
# Compiling expressions

From the text of one expression to the expression: templates are replaced where the options ask
for it, the text is read, and constants are folded where the options ask for that.

A folding that stops at a failure is no reason to refuse the text. The expression is kept as far as
it was folded.

## Main definitions

* `Expr.compileAt`: compiling a text that stands so many calls deep inside another.
* `Expr.compile`: compiling a text that stands on its own.
-/

namespace GridFormula.Expr

/-- Reads a text without templates, with so many levels of nesting left. -/
def readAt (grid : Grid) (optimize : Bool) (levels : Nat) (text : List Char) :
    Except Error Expr := do
  let e ← whole (operandAt grid optimize levels) (.ofText text)
  pure (if optimize then e.fold.1 else e)

/-- This **compiles** a text that stands `depth` levels deep inside another expression. -/
def compileAt (env : Env) (options : Options) (depth : Nat) (text : List Char) :
    Except Error Expr := do
  let text ← if options.expandTemplates then Template.expand env.context text else pure text
  readAt env.grid options.optimize (nestingLimit - depth) text

/-- This **compiles** the text of an expression. -/
def compile (env : Env) (options : Options) (text : List Char) : Except Error Expr :=
  compileAt env options 0 text

/-- The arguments of a call are read as a text of their own, one level deeper. -/
theorem arguments_operandAt (grid : Grid) (optimize : Bool) (levels opening : Nat)
    (text : List Char) :
    arguments optimize (some (operandAt grid optimize levels)) opening text =
      (ArgTree.ofText (readAt grid optimize levels) text).mapError (Error.shift (opening + 1)) :=
  rfl

end GridFormula.Expr
