import GridFormula.Proofs.Blame

/-!
# Programs that can trap

Texts are lists of characters here, and every function on them is total. A program that works on the
bytes of a text instead, with positions that it reads and slices at, can go wrong in ways that these
functions cannot: it can read behind the end, cut a character apart, leave the range of a number
type or go round in a loop for ever. This module has the steps of such programs, each with the trap
that stands for its going wrong. That a program never traps is then something to prove of it.

## Main definitions

* `Trap`: the ways to go wrong.
* `Checked`: what a program gives that can trap, with its steps `Checked.byteAt`, `Checked.slice`,
  `Checked.sub` and `Checked.within`.
* `Checked.loop`: a loop that traps when it makes no progress, and `Checked.Comes`: its states.
* `Run`: what a program gives that can trap and can also refuse its input.

## Main results

* `Checked.exists_last_of_loop`: what a loop gives is given by the round at the last of its states.
* `TailAt.byteAt`, `TailAt.slice`: reading and slicing at the beginning of a character.
* `skip_high`: what steps over the bytes of long characters one by one steps over all of them.
-/

namespace GridFormula

open Text (byteLength dropBytes? utf8Bytes)

/-! ### Traps -/

/-- The ways in which a program can **trap**. -/
inductive Trap where
  /-- A byte is read behind the end of a text. -/
  | outOfRange
  /-- A slice goes beyond its text, or it begins or ends inside a character. -/
  | badSlice
  /-- A number leaves the range of its type. -/
  | overflow
  /-- A loop makes no progress. -/
  | stuck
  /-- A condition does not hold that the program relies on. -/
  | violated
deriving DecidableEq

/-- What a program gives that **can trap**. -/
abbrev Checked := Except Trap

namespace Checked

@[simp] theorem ok_bind {α β : Type} (a : α) (f : α → Checked β) :
    (Except.ok a : Checked α) >>= f = f a := rfl

/-- The byte at a position. -/
def byteAt (bytes : List UInt8) (i : Nat) : Checked UInt8 :=
  match bytes[i]? with
  | some b => .ok b
  | none => .error .outOfRange

/-- The text from a byte position on. -/
def sliceFrom (text : List Char) (start : Nat) : Checked (List Char) :=
  match dropBytes? start text with
  | some tail => .ok tail
  | none => .error .badSlice

/-- The text between two byte positions. -/
def slice (text : List Char) (start stop : Nat) : Checked (List Char) := do
  let tail ← sliceFrom text start
  if stop < start then .error .badSlice
  else
    let behind ← sliceFrom tail (stop - start)
    pure (tail.take (tail.length - behind.length))

/-- A difference, which must not be negative. -/
def sub (m n : Nat) : Checked Nat := if m < n then .error .overflow else .ok (m - n)

/-- A number of a type whose largest one is `limit`. -/
def within (limit n : Nat) : Checked Nat := if limit < n then .error .overflow else .ok n

/-- A condition that the program relies on. -/
def require (condition : Bool) : Checked Unit :=
  if condition then .ok () else .error .violated

/-- A **loop**. Its body gives the next state or the result, and every round has to bring down what
is `left` to do. -/
def loop {σ α : Type} (left : σ → Nat) (body : σ → Checked (σ ⊕ α)) (s : σ) : Checked α :=
  match body s with
  | .error trap => .error trap
  | .ok (.inr a) => .ok a
  | .ok (.inl next) => if left next < left s then loop left body next else .error .stuck
termination_by left s

section Loop

variable {σ α : Type} {left : σ → Nat} {body : σ → Checked (σ ⊕ α)} {s : σ}

theorem loop_of_done {a : α} (h : body s = .ok (.inr a)) : loop left body s = .ok a := by
  rw [loop, h]

theorem loop_of_next {next : σ} (h : body s = .ok (.inl next)) (hlt : left next < left s) :
    loop left body s = loop left body next := by
  rw [loop, h]
  exact if_pos hlt

/-- The states that a loop **comes to** from another one, round by round. -/
def Comes (body : σ → Checked (σ ⊕ α)) : σ → σ → Prop :=
  Relation.ReflTransGen fun s next => body s = .ok (.inl next)

/-- A loop goes on from every state that it comes to, with the same result. -/
theorem loop_of_comes {a : α} (h : loop left body s = .ok a) {next : σ}
    (hcomes : Comes body s next) : loop left body next = .ok a := by
  induction hcomes with
  | refl => exact h
  | tail _ hround ih =>
    rw [loop, hround] at ih
    dsimp only at ih
    split at ih
    · exact ih
    · cases ih

/-- What a loop gives is given by the round at the **last state** that it comes to. -/
theorem exists_last_of_loop {a : α} (h : loop left body s = .ok a) :
    ∃ last, Comes body s last ∧ body last = .ok (.inr a) := by
  induction hleft : left s using Nat.strongRecOn generalizing s with
  | ind n ih =>
    rw [loop] at h
    split at h
    · cases h
    · next hround =>
      cases h
      exact ⟨s, .refl, hround⟩
    · next next hround =>
      split at h
      · next hless =>
        obtain ⟨last, hcomes, hlast⟩ := ih _ (hleft ▸ hless) h rfl
        exact ⟨last, .head hround hcomes, hlast⟩
      · cases h

end Loop

theorem sub_of_le {m n : Nat} (h : n ≤ m) : sub m n = .ok (m - n) := if_neg (Nat.not_lt.2 h)

theorem within_of_le {limit n : Nat} (h : n ≤ limit) : within limit n = .ok n :=
  if_neg (Nat.not_lt.2 h)

end Checked

/-! ### Programs that refuse inputs -/

/-- What a program gives that can trap and can also **refuse** its input. -/
abbrev Run := ExceptT Error Checked

namespace Run

variable {α β σ : Type}

/-- An **answer** that was given without a trap. -/
def answer (outcome : Except Error α) : Run α := (.ok outcome : Checked (Except Error α))

@[simp] theorem answer_ok_bind (a : α) (f : α → Run β) : answer (.ok a) >>= f = f a := rfl

@[simp] theorem answer_error_bind (error : Error) (f : α → Run β) :
    answer (.error error) >>= f = answer (.error error) := rfl

theorem answer_map (outcome : Except Error α) (f : α → β) :
    (do return f (← answer outcome)) = answer (outcome.map f) := by
  cases outcome <;> rfl

@[simp] theorem pure_eq (a : α) : (pure a : Run α) = answer (.ok a) := rfl

@[simp] theorem lift_ok (a : α) : ((liftM (.ok a : Checked α)) : Run α) = answer (.ok a) := rfl

/-- A loop whose body can refuse. -/
def loop (left : σ → Nat) (body : σ → Run (σ ⊕ α)) (s : σ) : Run α :=
  Checked.loop left (fun s => do
    match ← (body s : Checked (Except Error (σ ⊕ α))) with
    | .error error => pure (.inr (.error error))
    | .ok (.inr a) => pure (.inr (.ok a))
    | .ok (.inl next) => pure (.inl next)) s

section Loop

variable {left : σ → Nat} {body : σ → Run (σ ⊕ α)} {s : σ}

theorem loop_of_done {a : α} (h : body s = answer (.ok (.inr a))) :
    loop left body s = answer (.ok a) :=
  Checked.loop_of_done (by rw [h]; rfl)

theorem loop_of_error {error : Error} (h : body s = answer (.error error)) :
    loop left body s = answer (.error error) :=
  Checked.loop_of_done (by rw [h]; rfl)

theorem loop_of_next {next : σ} (h : body s = answer (.ok (.inl next)))
    (hlt : left next < left s) : loop left body s = loop left body next :=
  Checked.loop_of_next (by rw [h]; rfl) hlt

end Loop

end Run

/-! ### Bytes of characters -/

/-- The byte of an ASCII character. -/
def asciiByte (c : Char) : UInt8 := UInt8.ofNat c.toNat

/-- Whether a byte is part of a character that is not ASCII. -/
def IsHigh (b : UInt8) : Prop := 0x80 ≤ b.toNat

theorem asciiByte_ne_of_isHigh {c : Char} (hc : c.toNat < 0x80) {b : UInt8} (hb : IsHigh b) :
    b ≠ asciiByte c := by
  rintro rfl
  simp only [IsHigh, asciiByte, UInt8.toNat_ofNat'] at hb
  omega

/-- The bytes of a character: one that is the character, or several that are high. -/
theorem exists_bytes (c : Char) :
    (c.toNat < 0x80 ∧ String.utf8EncodeChar c = [asciiByte c]) ∨
      (0x80 ≤ c.toNat ∧ ∀ b ∈ String.utf8EncodeChar c, IsHigh b) := by
  have hcode : c.val.toNat = c.toNat := rfl
  unfold String.utf8EncodeChar
  rw [hcode]
  dsimp only
  split
  · exact .inl ⟨by omega, rfl⟩
  · refine .inr ⟨by omega, ?_⟩
    split
    · simp only [List.mem_cons, List.not_mem_nil, or_false, IsHigh]
      rintro b (rfl | rfl) <;> simp only [UInt8.toNat_ofNat'] <;> omega
    · split <;> simp only [List.mem_cons, List.not_mem_nil, or_false, IsHigh]
      · rintro b (rfl | rfl | rfl) <;> simp only [UInt8.toNat_ofNat'] <;> omega
      · rintro b (rfl | rfl | rfl | rfl) <;> simp only [UInt8.toNat_ofNat'] <;> omega

theorem utf8Size_of_lt {c : Char} (h : c.toNat < 0x80) : c.utf8Size = 1 := by
  rcases exists_bytes c with ⟨-, hbytes⟩ | ⟨hhigh, -⟩
  · rw [← String.length_utf8EncodeChar, hbytes]
    rfl
  · omega

theorem asciiByte_inj {c d : Char} (hc : c.toNat < 0x80) (hd : d.toNat < 0x80) :
    asciiByte c = asciiByte d ↔ c = d := by
  refine ⟨fun h => ?_, congrArg asciiByte⟩
  have hcode := congrArg UInt8.toNat h
  simp only [asciiByte, UInt8.toNat_ofNat'] at hcode
  have hsame : c.toNat = d.toNat := by omega
  rw [← Char.ofNat_toNat c, hsame, Char.ofNat_toNat]

/-- The first byte of a character tells which ASCII character it is, if it is one, and the bytes
behind it are high. -/
theorem exists_firstByte (c : Char) : ∃ b more, String.utf8EncodeChar c = b :: more ∧
    (∀ m ∈ more, IsHigh m) ∧ ∀ d : Char, d.toNat < 0x80 → (b = asciiByte d ↔ c = d) := by
  rcases exists_bytes c with ⟨hc, hbytes⟩ | ⟨hc, hhigh⟩
  · exact ⟨_, [], hbytes, List.forall_mem_nil _, fun d hd => asciiByte_inj hc hd⟩
  · obtain ⟨b, more, hbytes⟩ := List.exists_cons_of_ne_nil (@String.utf8EncodeChar_ne_nil c)
    rw [hbytes, List.forall_mem_cons] at hhigh
    refine ⟨b, more, hbytes, hhigh.2, fun d hd => ⟨fun h => ?_, ?_⟩⟩
    · exact absurd h (asciiByte_ne_of_isHigh hd hhigh.1)
    · rintro rfl
      omega

/-! ### Positions of characters -/

theorem utf8Bytes_append (first second : List Char) :
    utf8Bytes (first ++ second) = utf8Bytes first ++ utf8Bytes second :=
  List.flatMap_append

theorem utf8Bytes_cons (c : Char) (rest : List Char) :
    utf8Bytes (c :: rest) = String.utf8EncodeChar c ++ utf8Bytes rest :=
  List.flatMap_cons

namespace TailAt

variable {text tail first second : List Char} {position : Nat}

theorem whole (text : List Char) : TailAt text 0 text := ⟨[], rfl, rfl⟩

theorem finish (text : List Char) : TailAt text (byteLength text) [] :=
  ⟨text, (List.append_nil text).symm, rfl⟩

theorem rest {c : Char} {behind : List Char} (h : TailAt text position (c :: behind)) :
    TailAt text (position + c.utf8Size) behind := by
  have happend : TailAt text position ([c] ++ behind) := h
  exact happend.append

theorem add_byteLength (h : TailAt text position tail) :
    position + byteLength tail = byteLength text := by
  obtain ⟨before, rfl, rfl⟩ := h
  exact (Text.byteLength_append ..).symm

/-- The bytes from a position on are those of the text from there on. -/
theorem drop_utf8Bytes (h : TailAt text position tail) :
    (utf8Bytes text).drop position = utf8Bytes tail := by
  obtain ⟨before, rfl, rfl⟩ := h
  rw [utf8Bytes_append, ← Text.length_utf8Bytes, List.drop_left]

/-- A text can be **sliced** where a character begins. -/
theorem sliceFrom (h : TailAt text position tail) : Checked.sliceFrom text position = .ok tail := by
  obtain ⟨before, rfl, rfl⟩ := h
  rw [Checked.sliceFrom, Text.dropBytes?_append]

theorem slice (h : TailAt text position (first ++ second)) :
    Checked.slice text position (position + byteLength first) = .ok first := by
  have hbehind : Checked.sliceFrom (first ++ second) (byteLength first) = .ok second :=
    sliceFrom ⟨first, rfl, rfl⟩
  rw [Checked.slice, h.sliceFrom]
  simp only [bind, Except.bind]
  rw [if_neg (Nat.not_lt.2 (Nat.le_add_right ..)), Nat.add_sub_cancel_left, hbehind]
  simp [pure, Except.pure]

end TailAt

theorem tailAt_of_dropBytes? {text tail : List Char} {start : Nat}
    (h : dropBytes? start text = some tail) : TailAt text start tail := by
  induction text generalizing start with
  | nil =>
    cases start with
    | zero =>
      cases h
      exact TailAt.whole []
    | succ count => cases h
  | cons c rest ih =>
    cases start with
    | zero =>
      cases h
      exact TailAt.whole _
    | succ count =>
      rw [dropBytes?] at h
      split at h
      · next hsize =>
        obtain ⟨before, rfl, hbefore⟩ := ih h
        refine ⟨c :: before, rfl, ?_⟩
        rw [Text.byteLength_cons, hbefore]
        omega
      · cases h

/-- What is sliced out of a text is a part of it. -/
theorem tailAt_of_slice {text part : List Char} {start stop : Nat}
    (h : Checked.slice text start stop = .ok part) :
    ∃ behind, TailAt text start (part ++ behind) := by
  rw [Checked.slice, Checked.sliceFrom] at h
  cases htail : dropBytes? start text with
  | none =>
    rw [htail] at h
    cases h
  | some tail =>
    rw [htail] at h
    simp only [Checked.ok_bind] at h
    split at h
    · cases h
    · rw [Checked.sliceFrom] at h
      cases hbehind : dropBytes? (stop - start) tail with
      | none =>
        rw [hbehind] at h
        cases h
      | some behind =>
        rw [hbehind] at h
        obtain ⟨first, rfl, -⟩ := tailAt_of_dropBytes? hbehind
        cases h
        refine ⟨behind, ?_⟩
        simpa using tailAt_of_dropBytes? htail

/-- In the middle of a character there are high bytes only. -/
theorem isHigh_of_dropBytes? {text : List Char} {start : Nat} (h : dropBytes? start text = none)
    {b : UInt8} (hb : (utf8Bytes text)[start]? = some b) : IsHigh b := by
  induction text generalizing start with
  | nil => cases hb
  | cons c rest ih =>
    cases start with
    | zero => cases h
    | succ count =>
      rw [dropBytes?] at h
      rw [utf8Bytes_cons] at hb
      split at h
      · next hsize =>
        rw [← String.length_utf8EncodeChar] at h hsize
        exact ih h (List.getElem?_append_right hsize ▸ hb)
      · next hsize =>
        obtain ⟨first, more, hbytes, hhigh, -⟩ := exists_firstByte c
        rw [← String.length_utf8EncodeChar, hbytes, List.length_cons] at hsize
        rw [hbytes, List.cons_append, List.getElem?_cons_succ,
          List.getElem?_append_left (by omega)] at hb
        exact hhigh b (List.mem_of_getElem? hb)

/-! ### Reading bytes -/

section Bytes

variable {bytes more : List UInt8} {b : UInt8} {i : Nat}

theorem byteAt_of_drop (h : bytes.drop i = b :: more) : Checked.byteAt bytes i = .ok b := by
  have hget : bytes[i]? = some b := by
    rw [← List.head?_drop, h]
    rfl
  rw [Checked.byteAt, hget]

theorem getElem?_eq_some_of_byteAt (h : Checked.byteAt bytes i = .ok b) : bytes[i]? = some b := by
  unfold Checked.byteAt at h
  split at h
  · next heq => rw [heq, Except.ok.inj h]
  · cases h

theorem lt_length_of_drop (h : bytes.drop i = b :: more) : i < bytes.length := by
  have hlength := congrArg List.length h
  rw [List.length_drop, List.length_cons] at hlength
  omega

theorem drop_succ_of_drop (h : bytes.drop i = b :: more) : bytes.drop (i + 1) = more := by
  rw [← List.drop_drop, h]
  rfl

/-- What **steps over** high bytes one by one steps over a row of them. -/
theorem skip_high {β : Type} {f : Nat → β}
    (hf : ∀ {i b more}, bytes.drop i = b :: more → IsHigh b → f i = f (i + 1))
    {highs : List UInt8} (hhigh : ∀ b ∈ highs, IsHigh b) (h : bytes.drop i = highs ++ more) :
    f i = f (i + highs.length) := by
  induction highs generalizing i with
  | nil => rfl
  | cons b others ih =>
    obtain ⟨hb, hothers⟩ := List.forall_mem_cons.1 hhigh
    rw [hf h hb, ih hothers (drop_succ_of_drop h), List.length_cons]
    congr 1
    omega

end Bytes

/-- What steps over high bytes comes from the second byte of a character to the next character. -/
theorem TailAt.skip {β : Type} {f : Nat → β} {text rest : List Char} {c : Char} {position : Nat}
    (hf : ∀ {i b more}, (utf8Bytes text).drop i = b :: more → IsHigh b → f i = f (i + 1))
    (h : TailAt text position (c :: rest)) : f (position + 1) = f (position + c.utf8Size) := by
  obtain ⟨b, more, hbytes, hhigh, -⟩ := exists_firstByte c
  have hdrop := h.drop_utf8Bytes
  rw [utf8Bytes_cons, hbytes, List.cons_append] at hdrop
  have hsize : c.utf8Size = more.length + 1 := by
    rw [← String.length_utf8EncodeChar, hbytes, List.length_cons]
  rw [skip_high hf hhigh (drop_succ_of_drop hdrop), hsize]
  congr 1
  omega

/-- The first byte of a character stands where the character begins. -/
theorem TailAt.byteAt {text rest : List Char} {c : Char} {position : Nat}
    (h : TailAt text position (c :: rest)) {b : UInt8} {more : List UInt8}
    (hbytes : String.utf8EncodeChar c = b :: more) :
    Checked.byteAt (utf8Bytes text) position = .ok b ∧ position < (utf8Bytes text).length := by
  have hdrop := h.drop_utf8Bytes
  rw [utf8Bytes_cons, hbytes, List.cons_append] at hdrop
  exact ⟨byteAt_of_drop hdrop, lt_length_of_drop hdrop⟩

/-- The byte where a character begins tells which ASCII character it is, if it is one. -/
theorem TailAt.exists_byteAt {text rest : List Char} {c : Char} {position : Nat}
    (h : TailAt text position (c :: rest)) :
    ∃ b, Checked.byteAt (utf8Bytes text) position = .ok b ∧ position < (utf8Bytes text).length ∧
      ∀ d : Char, d.toNat < 0x80 → (b = asciiByte d ↔ c = d) := by
  obtain ⟨b, more, hbytes, -, hfirst⟩ := exists_firstByte c
  obtain ⟨hbyte, hlt⟩ := h.byteAt hbytes
  exact ⟨b, hbyte, hlt, hfirst⟩

/-- The byte of an ASCII character is found nowhere but where that character begins. -/
theorem exists_tailAt_of_byte {c : Char} (hc : c.toNat < 0x80) {text : List Char} {i : Nat}
    (h : (utf8Bytes text)[i]? = some (asciiByte c)) : ∃ rest, TailAt text i (c :: rest) := by
  cases htail : dropBytes? i text with
  | none => exact absurd rfl (asciiByte_ne_of_isHigh hc (isHigh_of_dropBytes? htail h))
  | some tail =>
    have hat := tailAt_of_dropBytes? htail
    cases tail with
    | nil =>
      rw [← List.head?_drop, hat.drop_utf8Bytes] at h
      cases h
    | cons d rest =>
      obtain ⟨b, hbyte, -, hfirst⟩ := hat.exists_byteAt
      have hb : b = asciiByte c :=
        Option.some.inj ((getElem?_eq_some_of_byteAt hbyte).symm.trans h)
      obtain rfl : d = c := (hfirst c hc).1 hb
      exact ⟨rest, hat⟩

end GridFormula
