import GridFormula.Env
import GridFormula.Error
import GridFormula.Json.Read
import GridFormula.Json.Write

/-!
# Records in JSON

Options, spans and syntax errors as JSON. A record is written as an object with its fields in a
fixed order. It is read from an object with the fields in any order, or from an array of the fields
in their fixed order. Fields of other names are passed over, and a field that occurs twice is
refused.

## Main definitions

* `Json.record?`: the values of the fields of a record.
* `Options.ofJson?`, `Span.ofJson?`, `SyntaxError.ofJson?`: reading.
* `Options.json`, `Span.json`, `SyntaxError.json`: writing.
-/

namespace GridFormula

namespace Json

/-! ### Reading fields -/

/-- The values of all fields named `name`. -/
def valuesOf (name : String) (fields : List (Option (List Char) × Json)) : List Json :=
  fields.filterMap fun (key, value) => if key = some name.toList then some value else none

/-- The value of the field named `name`, if there is one; a field that occurs twice is refused. -/
def fieldOnce? (fields : List (Option (List Char) × Json)) (name : String) :
    Option (Option Json) :=
  match valuesOf name fields with
  | [] => some none
  | [value] => some (some value)
  | _ => none

/-- The values of the fields `names` of a **record**, each of which may be absent. Every key has to
have a text, and an array may not have more items than the record has fields. -/
def record? (names : List String) : Json → Option (List (Option Json))
  | .array items =>
    if items.length ≤ names.length then
      some (items.map some ++ List.replicate (names.length - items.length) none)
    else none
  | .object fields =>
    if fields.all fun (key, _) => key.isSome then names.mapM (fieldOnce? fields) else none
  | _ => none

/-- A truth value. -/
def bool? : Json → Option Bool
  | .bool b => some b
  | _ => none

/-- A byte position: a number that is written as digits alone and is not too large. -/
def position? : Json → Option Nat
  | .number numeral =>
    if numeral.all Char.isDigit then
      let position := Nat.ofDigitChars 10 numeral 0
      if position ≤ maxPosition then some position else none
    else none
  | _ => none

/-- The text of a string. -/
def text? : Json → Option (List Char)
  | .string text => text
  | _ => none

/-- What `read` makes of a field, or `absent` where the field is. -/
def orElse? {α : Type} (read : Json → Option α) (absent : α) : Option Json → Option α
  | some value => read value
  | none => some absent

end Json

/-! ### Options -/

/-- Reads options; an absent field has its default. -/
def Options.ofJson? (json : Json) : Option Options := do
  match ← json.record? ["macro_expansion", "optimize"] with
  | [expandTemplates, optimize] => do
    let standard : Options := {}
    let expandTemplates ← Json.orElse? Json.bool? standard.expandTemplates expandTemplates
    let optimize ← Json.orElse? Json.bool? standard.optimize optimize
    pure { expandTemplates, optimize }
  | _ => none

/-- Writes options. -/
def Options.json (options : Options) : List Char :=
  Json.objectText
    [("macro_expansion", Json.boolText options.expandTemplates),
     ("optimize", Json.boolText options.optimize)]

/-! ### Spans -/

/-- Reads a span, both of whose ends have to be there. -/
def Span.ofJson? (json : Json) : Option Span := do
  match ← json.record? ["start", "end"] with
  | [some start, some stop] => do
    let start ← Json.position? start
    let stop ← Json.position? stop
    pure ⟨start, stop⟩
  | _ => none

/-- Writes a span. -/
def Span.json (span : Span) : List Char :=
  Json.objectText [("start", Json.natText span.start), ("end", Json.natText span.stop)]

/-! ### Syntax errors -/

/-- Reads a syntax error, whose fault is known by its wording alone. -/
def SyntaxError.ofJson? (json : Json) : Option SyntaxError := do
  match ← json.record? ["message", "span"] with
  | [some message, some span] => do
    let message ← Json.text? message
    let span ← Span.ofJson? span
    pure ⟨.other (String.ofList message), span⟩
  | _ => none

/-- Writes a syntax error with the wording of its fault. -/
def SyntaxError.json (e : SyntaxError) : List Char :=
  Json.objectText
    [("message", Json.stringText e.fault.message.toList), ("span", e.span.json)]

end GridFormula
