import GridFormula.Proofs.ByteScan
import GridFormula.Proofs.Parts
import GridFormula.Proofs.Printing

/-!
# Written field names

A field is written as its name between apostrophes, with a backslash before each apostrophe in it.
Reading takes every backslash for an escape, also one that belongs to the name. So a field is read
back exactly when its name has no backslash; the name comes out shorter otherwise.

A scan for the closing apostrophe counts on less. It is right as long as no backslash of the name
hides the one before an apostrophe, or the closing apostrophe itself.

## Main definitions

* `Expr.isSealed`: names whose closing apostrophe a scan finds.

## Main results

* `Expr.length_content_lt`: a backslash makes the name that is read shorter.
* `Expr.compile_text_field_iff`: which fields are read back, and where a scan ends.
-/

namespace GridFormula

open Text (byteLength utf8Bytes)

/-! ### Fields among the items -/

/-- A quoted name among the items of a phrase is a **field** in the expression. -/
theorem Derives.field_mem_nodes {grid : Grid} {category : Category} {items : List Item} {e : Expr}
    (h : Derives grid category items e) {n : String} (hn : .token (.field n) ∈ items) :
    .field n ∈ e.nodes := by
  induction h with
  | number | text | hash | name | empty | call => simp at hn
  | field =>
    cases List.mem_singleton.1 hn
    exact Expr.mem_nodes_self _
  | ofAtom _ ih | ofTarget _ ih | ofOperand _ ih | ofTighter _ ih => exact ih hn
  | paren _ ih => exact Expr.mem_nodes_of_part List.mem_cons_self (ih (by simpa using hn))
  | sequence _ ih => exact ih (by simpa using hn)
  | member _ ih => exact Expr.mem_nodes_of_part List.mem_cons_self (ih (by simpa using hn))
  | memberCall _ _ _ _ ih =>
    exact Expr.mem_nodes_of_part List.mem_cons_self (ih (by simpa using hn))
  | @unary op _ _ _ ih =>
    obtain heq | hn := List.mem_cons.1 hn
    · cases op <;> cases heq
    · exact Expr.mem_nodes_of_part List.mem_cons_self (ih hn)
  | @binary op first second left right _ _ ihl ihr =>
    obtain hn | hn : Item.token (.field n) ∈ first ∨ Item.token (.field n) ∈ second := by
      simpa using hn
    · exact Expr.mem_nodes_of_part List.mem_cons_self (ihl hn)
    · exact Expr.mem_nodes_of_part (List.mem_cons_of_mem _ List.mem_cons_self) (ihr hn)
  | element _ ih => exact Expr.mem_nodes_of_part List.mem_cons_self (ih hn)
  | @elements first second e es _ _ ihfirst ihsecond =>
    obtain hn | hn : Item.token (.field n) ∈ first ∨ Item.token (.field n) ∈ second := by
      simpa using hn
    · exact Expr.mem_nodes_of_part List.mem_cons_self (ihfirst hn)
    · -- what is found in the rest of the row is found in one of its expressions
      obtain heq | ⟨part, hpart, hnode⟩ := Expr.mem_nodes_iff.1 (ihsecond hn)
      · cases heq
      · exact Expr.mem_nodes_of_part (List.mem_cons_of_mem _ hpart) hnode

/-! ### Names between apostrophes -/

namespace Expr

/-- A character of a name as it is **written** between apostrophes. -/
def written (c : Char) : List Char := if c = '\'' then ['\\', '\''] else [c]

/-- A name as it stands **between** apostrophes. -/
def between (name : List Char) : List Char := name.flatMap written

theorem fieldText_eq (name : List Char) : fieldText name = '\'' :: (between name ++ ['\'']) := rfl

theorem between_mark (rest : List Char) : between ('\'' :: rest) = '\\' :: '\'' :: between rest :=
  rfl

theorem between_cons {c : Char} (hc : c ≠ '\'') (rest : List Char) :
    between (c :: rest) = c :: between rest := by
  rw [between, List.flatMap_cons, written, if_neg hc]
  rfl

/-- Whether a name is **sealed**: none of its backslashes hides the one that is written before an
apostrophe, or the closing apostrophe. -/
def isSealed : List Char → Bool
  | [] => true
  | [c] => c ≠ '\\'
  | c :: d :: rest => if c = '\\' then d ≠ '\'' && isSealed rest else isSealed (d :: rest)

/-! ### Reading a name back -/

/-- A character that is no backslash is read back. -/
theorem content_between_cons {c : Char} (hc : c ≠ '\\') (rest behind : List Char) :
    (Lexeme.quotation '\'' (between (c :: rest) ++ behind)).content =
      (Lexeme.quotation '\'' (between rest ++ behind)).content.map (c :: ·) := by
  by_cases hmark : c = '\''
  · rw [hmark, between_mark, List.cons_append, List.cons_append,
      Lexeme.quotation_cons_escape (by decide)]
    rfl
  · rw [between_cons hmark, List.cons_append, Lexeme.quotation_cons hmark hc]
    rfl

/-- What is read back is never longer than the name, and **shorter** when there is a backslash in
it. -/
theorem length_content_le (name : List Char) {content : List Char}
    (h : (Lexeme.quotation '\'' (between name ++ ['\''])).content = some content) :
    content.length + (if '\\' ∈ name then 1 else 0) ≤ name.length := by
  -- a backslash is taken with the character that is written behind it
  fun_induction isSealed name generalizing content with
  | case1 =>
    cases h
    exact Nat.le_refl 0
  | case2 c =>
    by_cases hc : c = '\\'
    · subst hc
      cases h
    · rw [content_between_cons hc] at h
      cases h
      simp [Ne.symm hc]
  | case3 d rest ih =>
    by_cases hd : d = '\''
    · subst hd
      rw [between_cons (by decide), between_mark] at h
      simp only [List.cons_append] at h
      rw [Lexeme.quotation_cons_escape (by decide), Lexeme.quotation_cons_mark] at h
      cases h
      simp
    · rw [between_cons (by decide), between_cons hd] at h
      simp only [List.cons_append] at h
      rw [Lexeme.quotation_cons_escape (by decide)] at h
      obtain ⟨content, hcontent, rfl⟩ := Option.map_eq_some_iff.1 h
      have hle := ih hcontent
      simp
      omega
  | case4 c d rest hc ih =>
    rw [content_between_cons hc] at h
    obtain ⟨content, hcontent, rfl⟩ := Option.map_eq_some_iff.1 h
    have hle := ih hcontent
    simp [Ne.symm hc] at hle ⊢
    omega

/-! ### Finding the closing apostrophe -/

theorem utf8Size_mark : Char.utf8Size '\'' = 1 := rfl

theorem bytesBeforeMark?_mark (rest : List Char) :
    Scan.bytesBeforeMark? (asciiByte '\'') (utf8Bytes ('\'' :: rest)) = some 0 := by
  rw [Scan.bytesBeforeMark?_char (by decide) (by decide), if_pos rfl]

/-- The search goes on behind a character that is no backslash. -/
theorem bytesBeforeMark?_between_cons {c : Char} (hc : c ≠ '\\') (rest behind : List Char) :
    Scan.bytesBeforeMark? (asciiByte '\'') (utf8Bytes (between (c :: rest) ++ behind)) =
      (Scan.bytesBeforeMark? (asciiByte '\'') (utf8Bytes (between rest ++ behind))).map
        (· + byteLength (written c)) := by
  by_cases hmark : c = '\''
  · rw [hmark, between_mark, List.cons_append, List.cons_append,
      Scan.bytesBeforeMark?_escape (by decide)]
    rfl
  · rw [between_cons hmark, List.cons_append, Scan.bytesBeforeMark?_char (by decide) hc, if_neg hmark,
      written, if_neg hmark]
    rfl

theorem byteLength_between_cons (c : Char) (rest : List Char) :
    byteLength (between (c :: rest)) = byteLength (written c) + byteLength (between rest) := by
  rw [between, List.flatMap_cons, Text.byteLength_append]
  rfl

theorem map_add_eq_some_iff {found : Option Nat} {n k : Nat} :
    found.map (· + k) = some (k + n) ↔ found = some n := by
  cases found with
  | none => simp
  | some m => simp [Nat.add_comm k]

/-- The search for the closing apostrophe ends there **exactly when the name is sealed**. -/
theorem bytesBeforeMark?_between_iff (name behind : List Char) :
    Scan.bytesBeforeMark? (asciiByte '\'') (utf8Bytes (between name ++ '\'' :: behind)) =
      some (byteLength (between name)) ↔ isSealed name = true := by
  fun_induction isSealed name with
  | case1 => exact iff_of_true (bytesBeforeMark?_mark behind) rfl
  | case2 c =>
    by_cases hc : c = '\\'
    · -- the search goes on behind the apostrophe
      subst hc
      refine iff_of_false (fun h => ?_) (by decide)
      rw [between_cons (by decide), List.cons_append, between, List.flatMap_nil, List.nil_append,
        Scan.bytesBeforeMark?_escape (by decide)] at h
      obtain ⟨n, -, hn⟩ := Option.map_eq_some_iff.1 h
      have hone : byteLength ['\\'] = 1 := rfl
      rw [utf8Size_mark] at hn
      omega
    · rw [bytesBeforeMark?_between_cons hc, byteLength_between_cons, map_add_eq_some_iff]
      exact iff_of_true (bytesBeforeMark?_mark behind) (by simpa using hc)
  | case3 d rest ih =>
    by_cases hd : d = '\''
    · -- the apostrophe in the name ends the search
      subst hd
      refine iff_of_false (fun h => ?_) (by simp)
      rw [between_cons (by decide), between_mark, List.cons_append, List.cons_append,
        List.cons_append, Scan.bytesBeforeMark?_escape (by decide), bytesBeforeMark?_mark] at h
      have hlength := Option.some.inj h
      simp only [Text.byteLength_cons, Scan.utf8Size_backslash, utf8Size_mark] at hlength
      omega
    · rw [between_cons (by decide), between_cons hd, List.cons_append, List.cons_append,
        Scan.bytesBeforeMark?_escape (by decide), Text.byteLength_cons, Text.byteLength_cons,
        ← Nat.add_assoc, Scan.utf8Size_backslash, map_add_eq_some_iff, ih]
      simp [hd]
  | case4 c d rest hc ih =>
    rw [bytesBeforeMark?_between_cons hc, byteLength_between_cons, map_add_eq_some_iff]
    exact ih

/-! ### Fields that are read back -/

/-- What an apostrophe begins is a field with the content of the quotation. -/
theorem exists_content_of_spelled {rest : List Char} {items : List Item}
    (h : Spelled ('\'' :: rest) items) :
    ∃ content others, (Lexeme.quotation '\'' rest).content = some content ∧
      items = .token (.field (String.ofList content)) :: others := by
  obtain ⟨last, htakes⟩ := (TokenStream.spelled_iff_takes 0).1 h
  have hstream : TokenStream.ofTextAt 0 ([] ++ '\'' :: rest) = _ :=
    TokenStream.ofTextAt_cons 0 rfl (by decide) rest
  have hhead : Lexeme.ofHead '\'' rest = Lexeme.ofQuotation '\'' .field rest := rfl
  rw [List.nil_append, hhead, Lexeme.ofQuotation] at hstream
  rw [hstream] at htakes
  cases hcontent : (Lexeme.quotation '\'' rest).content with
  | none =>
    rw [TokenStream.ofLexeme, hcontent] at htakes
    cases htakes
  | some content =>
    rw [TokenStream.ofLexeme, hcontent] at htakes
    cases htakes with
    | token htakes => exact ⟨content, _, rfl, rfl⟩

/-- Settling keeps the fields of an expression. -/
theorem filterMap_field?_settled (optimize : Bool) (r : Expr) :
    (r.settled optimize).nodes.filterMap (field? .empty) = r.nodes.filterMap (field? .empty) := by
  cases optimize with
  | false => rw [settled_false]
  | true =>
    have hnone : ∀ node : Expr, node.refers = false → node.field? .empty = none := by
      intro node hnode
      cases node <;> first | rfl | cases hnode
    exact (gathers_filterMap_nodes hnone).settled r

variable {env : Env} {options : Options}

/-- A field that is read back has no backslash in its name. -/
theorem not_mem_of_compile_text_field (h : options.expandTemplates = false) {s : String}
    (hcompile : compile env options (text (.field s)) = .ok (.field s)) : '\\' ∉ s.toList := by
  obtain ⟨r, ⟨items, hspelled, hderives⟩, -, hsettled⟩ := (compile_eq_ok_iff h).1 hcompile
  rw [text, fieldText_eq] at hspelled
  obtain ⟨content, others, hcontent, rfl⟩ := exists_content_of_spelled hspelled
  have hfield : String.ofList content ∈ r.nodes.filterMap (field? .empty) :=
    List.mem_filterMap.2 ⟨_, hderives.field_mem_nodes List.mem_cons_self, rfl⟩
  rw [← filterMap_field?_settled options.optimize, ← hsettled] at hfield
  obtain rfl := List.mem_singleton.1 hfield
  intro hslash
  have hle := length_content_le _ hcontent
  rw [if_pos hslash, String.toList_ofList] at hle
  exact Nat.lt_irrefl _ hle

/-- A field whose name has no backslash is read back. -/
theorem compile_text_field (h : options.expandTemplates = false) {s : String}
    (hs : '\\' ∉ s.toList) : compile env options (text (.field s)) = .ok (.field s) := by
  have hreads : Reads env.grid (text (.field s)) (.field s) :=
    reads_text (everywhere_field.2 trivial) (everywhere_field.2 hs)
  have hsettled : (field s).settled options.optimize = .field s := by
    cases options.optimize <;> rfl
  exact (compile_eq_ok_iff h).2 ⟨_, hreads, Nat.zero_le _, hsettled.symm⟩

/-! ### Where a scan ends -/

/-- A scan from the first apostrophe of a written field ends at its **last one** exactly when the
name is sealed. -/
theorem closingQuote?_fieldText_iff (name before behind : List Char) :
    Scan.closingQuote? (before ++ (fieldText name ++ behind)) (byteLength before) =
      some (byteLength (before ++ (fieldText name).dropLast)) ↔ isSealed name = true := by
  have htail : TailAt (before ++ (fieldText name ++ behind)) (byteLength before)
      (fieldText name ++ behind) := ⟨before, rfl, rfl⟩
  have hbytes : utf8Bytes (fieldText name ++ behind) =
      asciiByte '\'' :: utf8Bytes (between name ++ '\'' :: behind) := by
    rw [fieldText_eq, List.cons_append, List.append_assoc]
    rfl
  have hlast : (fieldText name).dropLast = '\'' :: between name := by
    rw [fieldText_eq, ← List.cons_append, List.dropLast_concat]
  have hlength : byteLength (before ++ (fieldText name).dropLast) =
      byteLength before + 1 + byteLength (between name) := by
    rw [hlast, Text.byteLength_append, Text.byteLength_cons, Nat.add_assoc]
    rfl
  rw [Scan.closingQuote?, htail.drop_utf8Bytes, hbytes, hlength,
    ← bytesBeforeMark?_between_iff name behind]
  exact (Option.map_injective (add_right_injective _)).eq_iff (b := some _)

/-- A name without backslashes is sealed. -/
theorem isSealed_of_not_mem {name : List Char} (h : '\\' ∉ name) : isSealed name = true := by
  fun_induction isSealed name with
  | case1 => rfl
  | case2 c => exact decide_eq_true fun hc => h (hc ▸ List.mem_cons_self)
  | case3 d rest => exact absurd List.mem_cons_self h
  | case4 c d rest hc ih => exact ih fun hmem => h (List.mem_cons_of_mem _ hmem)

/-- **Fields are read back** exactly when there is no backslash in their names, and exactly when a
name is sealed a scan from the first apostrophe of the written field ends at its last one, wherever
the field stands. Names without backslashes are sealed. -/
theorem compile_text_field_iff (h : options.expandTemplates = false) (s : String) :
    (compile env options (text (.field s)) = .ok (.field s) ↔ '\\' ∉ s.toList) ∧
    (∀ before behind,
      Scan.closingQuote? (before ++ (text (.field s) ++ behind)) (byteLength before) =
        some (byteLength (before ++ (text (.field s)).dropLast)) ↔ isSealed s.toList = true) ∧
    ('\\' ∉ s.toList → isSealed s.toList = true) :=
  ⟨⟨not_mem_of_compile_text_field h, compile_text_field h⟩, closingQuote?_fieldText_iff s.toList,
    isSealed_of_not_mem⟩

/-- The name `it's` is read back. -/
theorem compile_text_field_apostrophe :
    compile ⟨⟨9, 9⟩, .empty⟩ {} (text (.field "it's")) = .ok (.field "it's") :=
  (compile_text_field_iff rfl "it's").1.2 (by decide)

/-- Fields are **not always** read back: the name `a\b` comes out as `ab`. Behind the name `\` a
scan does not end at all. -/
theorem compile_text_field_backslash :
    compile ⟨⟨9, 9⟩, .empty⟩ {} (text (.field "a\\b")) = .ok (.field "ab") ∧
      Scan.closingQuote? (text (.field "\\")) 0 = none :=
  ⟨by cbv, by decide⟩

end Expr

end GridFormula
