/-!
# Byte positions

Positions in a text are counted in bytes of its UTF-8 form, while the text itself is worked on
as a list of characters. This module relates the two.

## Main definitions

* `byteLength`: the number of bytes of a text.
* `dropBytes?`: the text from a byte position on, when that is a character boundary.
* `utf8Bytes`: the bytes themselves.
-/

namespace GridFormula.Text

/-- The number of bytes of the UTF-8 form of `text`. -/
def byteLength : List Char → Nat
  | [] => 0
  | c :: rest => c.utf8Size + byteLength rest

/-- What is left of the text behind its first `count` bytes; `none` when the text is shorter or
the position falls inside a character. -/
def dropBytes? : Nat → List Char → Option (List Char)
  | 0, text => some text
  | _ + 1, [] => none
  | count + 1, c :: rest =>
    if c.utf8Size ≤ count + 1 then dropBytes? (count + 1 - c.utf8Size) rest else none

/-- The bytes of the UTF-8 form of `text`. -/
def utf8Bytes (text : List Char) : List UInt8 :=
  text.flatMap String.utf8EncodeChar

/-! ### Laws of byte lengths -/

@[simp] theorem byteLength_nil : byteLength [] = 0 := rfl

@[simp] theorem byteLength_cons (c : Char) (rest : List Char) :
    byteLength (c :: rest) = c.utf8Size + byteLength rest := rfl

@[simp] theorem byteLength_append (first second : List Char) :
    byteLength (first ++ second) = byteLength first + byteLength second := by
  induction first with
  | nil => simp
  | cons c rest ih => simp [ih, Nat.add_assoc]

theorem length_utf8Bytes (text : List Char) : (utf8Bytes text).length = byteLength text := by
  induction text with
  | nil => rfl
  | cons c rest ih => simpa [utf8Bytes] using ih

/-- Dropping the bytes of a first part leaves the second part. -/
theorem dropBytes?_append (first second : List Char) :
    dropBytes? (byteLength first) (first ++ second) = some second := by
  induction first with
  | nil => simp [dropBytes?]
  | cons c rest ih =>
    obtain ⟨n, hn⟩ : ∃ n, c.utf8Size = n + 1 :=
      ⟨c.utf8Size - 1, by have := c.utf8Size_pos; omega⟩
    have hlen : byteLength (c :: rest) = byteLength rest + n + 1 := by simp [hn]; omega
    rw [hlen, List.cons_append, dropBytes?, if_pos (by omega)]
    have : byteLength rest + n + 1 - c.utf8Size = byteLength rest := by omega
    rw [this, ih]

end GridFormula.Text
