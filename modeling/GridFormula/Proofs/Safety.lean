import GridFormula.Proofs.Joining
import GridFormula.Proofs.Parsing
import GridFormula.Proofs.RoundTrip
import GridFormula.Proofs.TemplateSlices

/-!
# No text makes a program trap

Argument text is read into a tree of expressions, and the tree is written out, by programs that work
on bytes and can trap. None of them ever does, whatever the text, the grid, the context and the
options are: they give what the functions on characters give. For writing this takes that the tree
was read from a text, because the number of a row that no name stands for could be too large to
count from one.

## Main definitions

* `Expr.parseAt`, `ArgTree.parseBytes`: the programs that read an expression and argument text.
* `Expr.write`, `Expr.writeArguments`: the programs that write them.

## Main results

* `Expr.parseAt_eq`: reading an expression never traps.
* `Expr.write_eq`: nor does writing an expression whose cells were named.
* `ArgTree.parseBytes_never_traps`: no text makes reading, writing or scanning trap.
-/

namespace GridFormula

open Text (utf8Bytes)
open Run (answer)

namespace Expr

/-! ### Reading -/

/-- Reads a text that stands `depth` levels deep inside another expression. -/
def parseAt (env : Env) (options : Options) (depth : Nat) (text : List Char) : Run Expr := do
  let source ← if options.expandTemplates then Template.replace env.context text else pure text
  parseWhole options.optimize
    (parseOperandAt env.grid options.optimize (nestingLimit - depth)) source

/-- Reading an expression **never traps**, and gives what the text is compiled to. -/
theorem parseAt_eq (env : Env) (options : Options) (depth : Nat) (text : List Char) :
    parseAt env options depth text = answer (compileAt env options depth text) := by
  have hwhole := parseWhole_eq options.optimize
    (steady_operandAt env.grid options.optimize (nestingLimit - depth))
    (tracks_parseOperandAt env.grid options.optimize (nestingLimit - depth))
  unfold parseAt compileAt
  split
  · rw [Template.replace_eq]
    cases Template.expand env.context text with
    | error => rfl
    | ok source => exact hwhole source
  · exact hwhole text

/-! ### Writing -/

mutual

/-- **Writes** an expression. -/
def write : Expr → Checked (List Char)
  | .literal value => pure value.literal
  | .name n => pure n.toList
  | .field n => pure (fieldText n.toList)
  | .currentRow => pure ['#']
  | .cell c => c.write
  | .sequence items => do return '[' :: (← writeItems items) ++ [']']
  | .paren inner => do return '(' :: (← inner.write) ++ [')']
  | .call function arguments => do
    return function.toList ++ '(' :: (← writeArguments arguments) ++ [')']
  | .member target n => do return (← target.write) ++ '.' :: n.toList
  | .memberCall target n arguments => do
    return (← target.write) ++ '.' :: n.toList ++ '(' :: (← writeArguments arguments) ++ [')']
  | .unary op operand => do return op.symbol.toList ++ (← operand.write)
  | .binary op left right => do
    return (← left.write) ++ op.symbol.toList ++ (← right.write)

/-- Writes expressions with commas between them. -/
def writeItems : List Expr → Checked (List Char)
  | [] => pure []
  | [item] => item.write
  | item :: others => do return (← item.write) ++ ',' :: (← writeItems others)

/-- Writes the arguments of a call with their separators. -/
def writeArguments : ArgTree Expr → Checked (List Char)
  | .omitted => pure []
  | .leaf e => e.write
  | .group level slots => writeSlots level.separator?.toList slots

/-- Writes slots of arguments with `separator` between them. -/
def writeSlots (separator : List Char) : List (ArgTree Expr) → Checked (List Char)
  | [] => pure []
  | [slot] => writeArguments slot
  | slot :: others => do
    return (← writeArguments slot) ++ (separator ++ (← writeSlots separator others))

end

theorem writeItems_eq {items : List Expr} (h : ∀ item ∈ items, item.write = .ok item.text) :
    writeItems items = .ok (itemsText items) := by
  induction items with
  | nil => rfl
  | cons item others ih =>
    obtain ⟨hitem, hothers⟩ := List.forall_mem_cons.1 h
    cases others with
    | nil => exact hitem
    | cons next others =>
      rw [writeItems, hitem, ih hothers]
      · rfl
      · simp

theorem writeArguments_eq {tree : ArgTree Expr}
    (h : ∀ e ∈ tree.expressions, e.write = .ok e.text) :
    writeArguments tree = .ok (argumentsText tree) := by
  induction tree with
  | omitted => rfl
  | leaf e => exact h e (by simp)
  | group level slots ih =>
    rw [writeArguments, argumentsText]
    induction slots with
    | nil => rfl
    | cons slot others ihothers =>
      have hexpressions := h
      rw [ArgTree.expressions_group, List.flatMap_cons, List.forall_mem_append] at hexpressions
      obtain ⟨hfirst, hrest⟩ := hexpressions
      rw [← ArgTree.expressions_group level] at hrest
      have hslot := ih slot (by simp) hfirst
      have hothers := ihothers (fun slot hslot => ih slot (by simp [hslot])) hrest
      cases others with
      | nil => exact hslot
      | cons next others =>
        rw [writeSlots, hslot, hothers]
        · rfl
        · simp

/-- A node whose cell, if it is one, has a name. -/
def NamedCell (e : Expr) : Prop := ∀ c, e = .cell c → Cell.Named c

/-- Writing an expression whose cells are named **never traps**, and gives its text. -/
theorem write_eq {e : Expr} (h : e.Everywhere NamedCell) : e.write = .ok e.text := by
  induction e with
  | literal | name | field | currentRow => rfl
  | cell c =>
    rw [everywhere_cell] at h
    exact Cell.write_eq (h c rfl)
  | sequence items ih =>
    rw [everywhere_sequence] at h
    rw [write, writeItems_eq fun item hitem => ih item hitem (h.2 item hitem), text]
    rfl
  | paren inner ih =>
    rw [everywhere_paren] at h
    rw [write, ih h.2, text]
    rfl
  | call function arguments ih =>
    rw [everywhere_call] at h
    rw [write, writeArguments_eq fun e he => ih e he (h.2 e he), text]
    rfl
  | member target n ih =>
    rw [everywhere_member] at h
    rw [write, ih h.2, text]
    rfl
  | memberCall target n arguments ih iharguments =>
    rw [everywhere_memberCall] at h
    rw [write, ih h.2.1, writeArguments_eq fun e he => iharguments e he (h.2.2 e he), text]
    rfl
  | unary op operand ih =>
    rw [everywhere_unary] at h
    rw [write, ih h.2, text]
    rfl
  | binary op left right ihl ihr =>
    rw [everywhere_binary] at h
    rw [write, ihl h.2.1, ihr h.2.2, text]
    rfl

theorem namedCell_of_wellFormed {grid : Grid} {e : Expr} (h : WellFormed grid e) : NamedCell e := by
  rintro c rfl
  obtain ⟨n, hn⟩ := h
  obtain ⟨hname, -⟩ := Option.filter_eq_some_iff.1 hn
  exact Cell.named_of_ofName? hname

/-- The cells of what a text is compiled to are named. -/
theorem everywhere_namedCell {env : Env} {options : Options} {depth : Nat} {text : List Char}
    {e : Expr} (h : compileAt env options depth text = .ok e) : e.Everywhere NamedCell := by
  have hsource : ∃ source,
      readAt env.grid options.optimize (nestingLimit - depth) source = .ok e := by
    unfold compileAt at h
    split at h
    · obtain ⟨source, -, hread⟩ := exists_of_bind h
      exact ⟨source, hread⟩
    · exact ⟨text, h⟩
  obtain ⟨source, hread⟩ := hsource
  obtain ⟨r, hreads, -, rfl⟩ := readAt_eq_ok_iff.1 hread
  have hform : r.Everywhere (WellFormed env.grid) :=
    (everywhere_of_reads hreads).mono fun _ => AsRead.wellFormed
  exact (everywhere_settled hform options.optimize).mono fun _ => namedCell_of_wellFormed

end Expr

namespace ArgTree

theorem exists_of_mem_expressions {ε : Type} {compile : List Char → Except Error ε}
    {text : List Char} {tree : ArgTree ε} (h : ofText compile text = .ok tree) {e : ε}
    (he : e ∈ tree.expressions) : ∃ piece, compile piece = .ok e := by
  have hleaves := forall₂_of_traverse (ofText_eq_ok_iff.1 h)
  obtain ⟨i, rfl⟩ := List.get_of_mem he
  have hlt : ↑i < (fullSplit text).expressions.length := by
    rw [hleaves.length_eq]
    exact i.isLt
  exact ⟨_, hleaves.get hlt i.isLt⟩

/-- Reads argument text with the given options. -/
def parseBytes (env : Env) (options : Options) (text : List Char) : Run (ArgTree Expr) :=
  build (Expr.parseAt env options 0) text

/-- Writing what argument text was read as **never traps**, and gives the text of the tree. -/
theorem writeArguments_of_parseWith {env : Env} {options : Options} {text : List Char}
    {tree : ArgTree Expr} (h : parseWith env options text = .ok tree) :
    Expr.writeArguments tree = .ok (tree.text Expr.text) := by
  rw [← Expr.argumentsText_eq]
  refine Expr.writeArguments_eq fun e he => ?_
  obtain ⟨piece, hpiece⟩ := exists_of_mem_expressions h he
  exact Expr.write_eq (Expr.everywhere_namedCell hpiece)

/-- **No text makes a program trap**: not one that reads it as argument text in any environment with
any options, or that writes what it was read as, or cuts it up at an ASCII character, or looks for
the end of a group from any position on, or reads it as the name of a cell. -/
theorem parseBytes_never_traps (env : Env) (options : Options) (text : List Char) :
    parseBytes env options text = answer (parseWith env options text) ∧
    (∀ tree, parseWith env options text = .ok tree →
      Expr.writeArguments tree = .ok (tree.text Expr.text)) ∧
    (∀ sep : Char, sep.toNat < 0x80 →
      Scan.tokens text sep = .ok (Scan.withOffsets 0 (Scan.pieces sep text))) ∧
    (∀ bracket start,
      Scan.bracketEnd (utf8Bytes text) bracket start = .ok (Scan.closing? bracket text start)) ∧
    Cell.read text = .ok (Cell.ofName? text) := by
  refine ⟨build_eq (Expr.parseAt_eq env options 0) text, fun tree h => ?_, fun sep hsep => ?_,
    fun bracket start => ?_, Cell.read_eq text⟩
  · exact writeArguments_of_parseWith h
  · exact Scan.tokens_eq hsep text
  · exact Scan.bracketEnd_eq text bracket start

/-- In `f('\é)');$b2` the backslash stands in front of a character of two bytes, and the parenthesis
behind it does not end the call. -/
theorem parseBytes_escaped_field :
    parseWith ⟨⟨9, 9⟩, .empty⟩ {}
        ['f', '(', '\'', '\\', 'é', ')', '\'', ')', ';', '$', 'b', '2'] =
      .ok (.group .semicolon
        [.leaf (Expr.call "f" (.leaf (.field "é)"))), .leaf (Expr.cell ⟨1, 1⟩)]) ∧
    Expr.writeArguments (.group .semicolon
        [.leaf (Expr.call "f" (.leaf (.field "é)"))), .leaf (Expr.cell ⟨1, 1⟩)]) =
      .ok ['f', '(', '\'', 'é', ')', '\'', ')', ';', 'B', '2'] ∧
    ';'.toNat < 0x80 ∧
    Scan.tokens ['f', '(', '\'', '\\', 'é', ')', '\'', ')', ';', '$', 'b', '2'] ';' =
      .ok [(0, ['f', '(', '\'', '\\', 'é', ')', '\'', ')']), (10, ['$', 'b', '2'])] := by
  obtain ⟨-, hwrite, htokens, -⟩ := parseBytes_never_traps ⟨⟨9, 9⟩, .empty⟩ {}
    ['f', '(', '\'', '\\', 'é', ')', '\'', ')', ';', '$', 'b', '2']
  have htree : parseWith ⟨⟨9, 9⟩, .empty⟩ {}
      ['f', '(', '\'', '\\', 'é', ')', '\'', ')', ';', '$', 'b', '2'] =
        .ok (.group .semicolon
          [.leaf (Expr.call "f" (.leaf (.field "é)"))), .leaf (Expr.cell ⟨1, 1⟩)]) := by cbv
  have hascii : ';'.toNat < 0x80 := by decide
  exact ⟨htree, (hwrite _ htree).trans (by cbv), hascii, (htokens ';' hascii).trans (by cbv)⟩

end ArgTree

end GridFormula
