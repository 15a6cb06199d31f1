import GridFormula.Proofs.Parts
import GridFormula.Proofs.RoundTrip

/-!
# Written members

A member is written behind its target, with a dot and no blank between them. In front of the dot
every word ends where it did, except a numeral, which goes on with the dot. So when its target is
read back, a member is read back exactly if the target is not a number. A number never is the target
of what is read back: its numeral takes the dot, and no other dot stands behind it.

## Main definitions

* `Expr.target?`: the target of a member or of a call of one.

## Main results

* `Spells.dotted`: what a text spells in front of a dot.
* `Expr.reads_member`, `Expr.reads_memberCall`: members of targets that are no numbers.
* `Expr.compile_text_member_iff`: which members are read back.
-/

namespace GridFormula

open Text (isBlank allBlank)

/-! ### Words in front of a dot -/

namespace Lexeme

/-- No sign goes on with a dot. -/
theorem ne_append_dot {source : List Char} {t : Token} (h : (source, t) ∈ signs)
    {longer : List Char × Token} (hlonger : longer ∈ signs) : longer.1 ≠ source ++ ['.'] := by
  have hdot : ∀ sign ∈ signs, sign.1.getLast? = some '.' → sign.1.length = 1 := by decide
  have hne : ∀ sign ∈ signs, sign.1 ≠ [] := by decide
  intro heq
  have hone := hdot longer hlonger (by rw [heq, List.getLast?_concat])
  rw [heq, List.length_append, List.length_singleton, Nat.add_eq_right] at hone
  exact hne _ h (List.length_eq_zero_iff.1 hone)

/-- A word other than a numeral **ends in front of a dot**, and a numeral does where something else
comes between. -/
theorem Made.dotted {source behind : List Char} {t : Token} (h : Made source t behind)
    (ht : behind = [] → ∀ n, t ≠ .number n) (more : List Char) :
    Made source t (behind ++ '.' :: more) := by
  cases behind with
  | cons c rest => exact h.meets fun d hd => .inr hd
  | nil =>
    cases h with
    | sign hmem =>
      refine .sign hmem fun d hd longer hlonger => ?_
      cases hd
      exact ne_append_dot hmem hlonger
    | text hbody => exact .text hbody
    | field hbody => exact .field hbody
    | number => exact absurd rfl (ht rfl _)
    | name hdigit hstart hrest =>
      refine .name hdigit hstart hrest fun d hd => ?_
      cases hd
      decide

end Lexeme

theorem NoCall.dotted {text : List Char} (h : NoCall text) (more : List Char) :
    NoCall (text ++ '.' :: more) := by
  intro rest heq
  rw [List.dropWhile_append] at heq
  split at heq
  · rw [List.dropWhile_cons_of_neg (by decide)] at heq
    cases heq
  · next hne =>
    obtain ⟨c, behind, hdrop⟩ := List.exists_cons_of_ne_nil (mt List.isEmpty_iff.2 hne)
    rw [hdrop] at heq
    cases heq
    exact h behind hdrop

theorem Spells.eq_nil {items : List Item} {behind : List Char} (h : Spells items [] behind) :
    items = [] := by
  generalize htext : [] = text at h
  cases h with
  | nil => rfl
  | token _ hword =>
    obtain ⟨c, rest, rfl, -⟩ := hword
    simp at htext
  | call => simp at htext

theorem getLast?_ne_of_cons {item last : Item} {items : List Item}
    (h : (item :: items).getLast? ≠ some last) : items.getLast? ≠ some last := by
  intro hlast
  exact h (by rw [List.getLast?_cons, hlast]; rfl)

/-- What is spelled at the end of a text is spelled **in front of a dot**, unless it ends with a
number that would take the dot. -/
theorem Spells.dotted {items : List Item} {text behind : List Char} (h : Spells items text behind)
    (hlast : behind = [] → ∀ n, items.getLast? ≠ some (.token (.number n))) (more : List Char) :
    Spells items text (behind ++ '.' :: more) := by
  induction h with
  | nil => exact .nil
  | @token _ _ text behind t items hblanks hword hname hspells ih =>
    have hone : text ++ behind = [] → ∀ n, t ≠ .number n := by
      intro hnil n ht
      obtain ⟨rfl, rfl⟩ := List.append_eq_nil_iff.1 hnil
      exact hlast rfl n (by rw [hspells.eq_nil, ht]; rfl)
    have hrest : behind = [] → ∀ n, items.getLast? ≠ some (.token (.number n)) :=
      fun hnil n => getLast?_ne_of_cons (hlast hnil n)
    have hmade := (Lexeme.made_of_word hword).dotted hone more
    rw [List.append_assoc] at hmade
    refine .token hblanks (Lexeme.word_of_made hmade) (fun name heq => ?_) (ih hrest)
    rw [← List.append_assoc]
    exact (hname name heq).dotted more
  | @call _ _ gap arguments text behind _ items hblanks hgap hword hsplit hspells ih =>
    have hrest : behind = [] → ∀ n, items.getLast? ≠ some (.token (.number n)) :=
      fun hnil n => getLast?_ne_of_cons (hlast hnil n)
    have hmade := (Lexeme.made_of_word hword).dotted (by simp) more
    simp only [List.append_assoc, List.cons_append] at hmade
    refine .call hblanks hgap (Lexeme.word_of_made hmade) ?_ (ih hrest)
    exact Scan.splitAtTop_append hsplit _

/-! ### Phrases in front of a dot -/

section Phrases

variable {grid : Grid} {items : List Item} {e : Expr}

/-- Whether an expression has an operator at its top. -/
def Expr.isOperation : Expr → Bool
  | .unary _ _ | .binary _ _ _ => true
  | _ => false

theorem Expr.Holds.isOperation_eq (h : Expr.Holds 8 e) : e.isOperation = false := by
  rcases h with htight | ⟨value, rfl⟩
  · cases e with
    | unary => exact absurd htight (Nat.lt_irrefl 7)
    | binary op => cases op <;> simp [Expr.tightness, BinaryOp.precedence] at htight
    | _ => rfl
  · rfl

/-- What has no operator at its top is a target. -/
theorem Derives.target_of_isOperation {p : Nat} (h : Derives grid (.chain p) items e)
    (he : e.isOperation = false) : Derives grid .target items e := by
  generalize hcategory : Category.chain p = category at h
  induction h generalizing p with
  | ofOperand h =>
    cases h with
    | ofTarget h => exact h
    | unary => cases he
  | ofTighter _ ih => exact ih he rfl
  | binary => cases he
  | _ => cases hcategory

theorem keyword?_ne_number {n : String} {value : Number} : keyword? n ≠ some (.number value) := by
  intro h
  rcases keyword?_cases h with ⟨-, heq⟩ | ⟨-, heq⟩ | ⟨-, heq⟩ <;> cases heq

/-- A number is one numeral. -/
theorem Derives.eq_number {n : Number} (h : Derives grid .target items (.literal (.number n))) :
    items = [.token (.number n)] := by
  cases h with
  | ofAtom h =>
    cases h with
    | number => rfl
    | name hstands =>
      cases hstands with
      | constant hkeyword => exact absurd hkeyword keyword?_ne_number

/-- A target that is no number does not **end** with a numeral. -/
theorem Derives.getLast?_ne_number (h : Derives grid .target items e)
    (hnumber : ∀ n, e ≠ .literal (.number n)) (n : Number) :
    items.getLast? ≠ some (.token (.number n)) := by
  cases h with
  | ofAtom h =>
    cases h with
    | number => exact absurd rfl (hnumber _)
    | paren | sequence =>
      rw [← List.cons_append, List.getLast?_concat]
      nofun
    | _ => simp
  | member => simp
  | memberCall => simp

end Phrases

/-! ### Targets that are no numbers -/

namespace Expr

section Targets

variable {grid : Grid} {target : Expr}

/-- A target that is read back is a target in front of its own dot, unless it is a number. -/
theorem exists_spells_target (hreads : Reads grid target.text target) (hholds : Holds 8 target)
    (hnumber : ∀ n, target ≠ .literal (.number n)) :
    ∃ row, Derives grid .target row target ∧ ∀ {second : List Item} {rest : List Char},
      Spells second rest [] →
        Spells (row ++ .token .dot :: second) (target.text ++ '.' :: rest) [] := by
  obtain ⟨row, ⟨spelling, blanks, htext, hblanks, hspells⟩, hderives⟩ := hreads
  have htarget := hderives.target_of_isOperation hholds.isOperation_eq
  refine ⟨row, htarget, fun {second rest} hsecond => ?_⟩
  have hfirst : Spells row spelling ((blanks ++ '.' :: rest) ++ []) := by
    rw [List.append_nil]
    exact hspells.dotted (fun _ => htarget.getLast?_ne_number hnumber) rest
  have hdotted : Spells (.token .dot :: second) (blanks ++ (['.'] ++ rest)) [] :=
    .token hblanks (Lexeme.word_of_made (made_dot _)) nofun hsecond
  rw [htext, List.append_assoc]
  exact hfirst.append hdotted

theorem reads_of_spells_target {text : List Char} {items : List Item} {e : Expr}
    (hspells : Spells items text []) (hderives : Derives grid .target items e) : Reads grid text e :=
  ⟨items, ⟨text, [], (List.append_nil text).symm, rfl, hspells⟩,
    Derives.chain_of_tightness (q := 8) (by decide) hderives (by decide) (by decide)⟩

/-- A member of a target that is read back is **read back**, unless the target is a number. -/
theorem reads_member {n : String} (hreads : Reads grid target.text target)
    (hform : WellFormed grid (.member target n)) (hnumber : ∀ n, target ≠ .literal (.number n)) :
    Reads grid (member target n).text (.member target n) := by
  obtain ⟨row, hderives, hspells⟩ := exists_spells_target hreads hform.2 hnumber
  exact reads_of_spells_target (hspells (.nameWord hform.1 nofun)) (.member hderives)

/-- So is a call of a member, when its arguments are read back. -/
theorem reads_memberCall {n : String} {arguments : ArgTree Expr}
    (hreads : Reads grid target.text target)
    (hform : WellFormed grid (.memberCall target n arguments))
    (hnumber : ∀ n, target ≠ .literal (.number n))
    (harguments : ∀ e ∈ arguments.expressions, Reads grid e.text e) :
    Reads grid (memberCall target n arguments).text (.memberCall target n arguments) := by
  have hunfolded : ∀ e ∈ arguments.expressions, e.unfolded = e := by
    intro e he
    have hread : e.Everywhere (AsRead grid) := everywhere_of_reads (harguments e he)
    exact unfolded_eq_self (hread.mono fun _ => AsRead.primitive)
  have hagain : ∀ e ∈ arguments.expressions, Reads grid e.text e.unfolded := by
    intro e he
    rw [hunfolded e he]
    exact harguments e he
  obtain ⟨row, hderives, hspells⟩ := exists_spells_target hreads hform.2.1 hnumber
  obtain ⟨hclosed, pieces, htext, hspelled, hpieces, hvalue⟩ := exists_pieces hform.2.2 hagain
  have hcall := hspells (.callWord hform.1 hclosed)
  have hvalues : argumentsUnfolded arguments = arguments := by
    rw [argumentsUnfolded_eq_map]
    exact ArgTree.map_eq_self hunfolded
  rw [hvalues] at hvalue
  have hmember := hderives.memberCall (n := n) htext hspelled hpieces
  rw [hvalue] at hmember
  refine reads_of_spells_target ?_ hmember
  rw [text]
  simpa using hcall

end Targets

end Expr

/-! ### Numerals in front of a dot -/

namespace Lexeme

theorem forall_mem_head?_append {P : Char → Prop} {run tail : List Char} (hrun : ∀ c ∈ run, P c)
    (htail : ∀ c ∈ tail.head?, P c) : ∀ c ∈ (run ++ tail).head?, P c := by
  cases run with
  | nil => exact htail
  | cons c rest =>
    intro d hd
    cases hd
    exact hrun c List.mem_cons_self

/-- What is dropped from a text ends where the rest of it does not go on. -/
theorem dropWhile_append_of_head? {p : Char → Bool} (run : List Char) {tail : List Char}
    (htail : ∀ c ∈ tail.head?, p c = false) :
    (run ++ tail).dropWhile p = run.dropWhile p ++ tail := by
  induction run with
  | nil => exact dropWhile_append_of_stop nofun htail
  | cons c run ih =>
    rw [List.cons_append, List.dropWhile_cons, List.dropWhile_cons]
    split
    · exact ih
    · rfl

/-- Behind a name no sign of an exponent stands. -/
theorem exponentSign_eq {text : List Char} (h : ∀ c ∈ text.head?, c ≠ '+' ∧ c ≠ '-') :
    exponentSign text = ([], text) := by
  unfold exponentSign
  split
  · exact absurd rfl (h _ rfl).1
  · exact absurd rfl (h _ rfl).2
  · rfl

/-- A name begins with what is no part of a numeral. -/
theorem isNumeralPart_of_isNameStart {c : Char} (hdigit : c.isDigit = false)
    (hstart : isNameStart c = true) : isNumeralPart c = false := by
  have hdot : c ≠ '.' := by
    rintro rfl
    exact absurd hstart (by decide)
  simp [isNumeralPart, hdigit, hdot]

/-- Behind what an exponent takes of a name stands a part of the name, or what comes after the name.
-/
theorem forall_mem_head?_exponent {first : Char} {others tail : List Char}
    (hfirst : isNamePart first = true) (hothers : ∀ c ∈ others, isNamePart c = true)
    (htail : ∀ c ∈ tail.head?, c = '(') :
    ∀ c ∈ (exponent (first :: (others ++ tail))).2.head?, isNamePart c = true ∨ c = '(' := by
  have hparts : ∀ c ∈ others, isNamePart c = true ∨ c = '(' := fun c hc => .inl (hothers c hc)
  have hbehind : ∀ c ∈ tail.head?, (isNamePart c = true ∨ c = '(') :=
    fun c hc => .inr (htail c hc)
  cases hmark : isExponentMark first with
  | false =>
    rw [exponent_of_stop (by simpa using hmark)]
    intro c hc
    cases hc
    exact .inl hfirst
  | true =>
    have hsign : exponentSign (others ++ tail) = ([], others ++ tail) := by
      refine exponentSign_eq fun c hc => ?_
      have hpart := forall_mem_head?_append hparts hbehind c hc
      constructor <;> rintro rfl <;> exact absurd hpart (by decide)
    have hdigit : ∀ c ∈ tail.head?, c.isDigit = false := by
      intro c hc
      rw [htail c hc]
      rfl
    rw [exponent_cons hmark, hsign]
    dsimp only
    rw [dropWhile_append_of_head? others hdigit]
    exact forall_mem_head?_append (fun c hc => hparts c ((List.dropWhile_sublist _).subset hc)) hbehind

/-- A numeral **takes the dot** behind its digits. What stands behind it then is a part of the name,
or the parenthesis behind that. -/
theorem forall_mem_head?_rest_ofNumeral {digits : List Char}
    (hdigits : ∀ c ∈ digits, isNumeralPart c = true) {n : String} (hn : IsName n) {tail : List Char}
    (htail : ∀ c ∈ tail.head?, c = '(') :
    ∀ c ∈ (ofNumeral (digits ++ '.' :: (n.toList ++ tail))).rest.head?,
      isNamePart c = true ∨ c = '(' := by
  obtain ⟨first, others, htext, hdigit, hstart, hothers⟩ := hn
  have hrun : ∀ c ∈ digits ++ ['.'], isNumeralPart c = true :=
    List.forall_mem_append.2 ⟨hdigits, List.forall_mem_singleton.2 rfl⟩
  have hstop : ∀ c ∈ (first :: (others ++ tail)).head?, isNumeralPart c = false := by
    intro c hc
    cases hc
    exact isNumeralPart_of_isNameStart hdigit hstart
  have hdrop := dropWhile_append_of_stop hrun hstop
  rw [List.append_assoc, List.singleton_append] at hdrop
  have hrest : (ofNumeral (digits ++ '.' :: (first :: (others ++ tail)))).rest =
      (exponent (first :: (others ++ tail))).2 := by
    rw [ofNumeral, hdrop]
  rw [htext, List.cons_append, hrest]
  exact forall_mem_head?_exponent (isNamePart_of_isNameStart hstart) hothers htail

theorem eq_of_made_dot {source behind : List Char} (h : Made source .dot behind) :
    source = ['.'] := by
  cases h with
  | sign hmem => simpa [signs] using hmem

end Lexeme

/-- A numeral and a dot **are not spelled** by digits with a dot and a name. -/
theorem not_spells_number_dot {m : Magnitude} (hm : m.isInfinite = false) {n : String} (hn : IsName n)
    {tail spelling blanks : List Char} (htail : ∀ c ∈ tail.head?, c = '(')
    (htext : m.text ++ '.' :: (n.toList ++ tail) = spelling ++ blanks) {number : Number}
    {items : List Item} :
    ¬ Spells (.token (.number number) :: .token .dot :: items) spelling blanks := by
  intro h
  obtain ⟨first, digits, hmagnitude, hfirst, hdigits⟩ := Magnitude.exists_text_eq_cons hm
  obtain ⟨before, source, rest, rfl, hbefore, hmade, hrest⟩ := exists_of_spells_token h
  obtain ⟨between, dot, behind, rfl, hbetween, hdot, -⟩ := exists_of_spells_token hrest
  obtain rfl := Lexeme.eq_of_made_dot hdot
  -- the text begins with a digit, so no blanks come first
  obtain rfl : before = [] := by
    cases before with
    | nil => rfl
    | cons c others =>
      rw [hmagnitude] at htext
      obtain rfl : first = c := (List.cons.inj htext).1
      have hblank : isBlank first = true := List.all_eq_true.1 hbefore _ List.mem_cons_self
      rw [Lexeme.isDigit_of_isBlank hblank] at hfirst
      cases hfirst
  cases hmade with
  | sign hmem => simp [Lexeme.signs] at hmem
  | number _ hread =>
    have hhead := Lexeme.forall_mem_head?_rest_ofNumeral hdigits hn htail
    rw [htext, List.nil_append, List.append_assoc, hread] at hhead
    cases between with
    | nil => exact absurd (hhead '.' rfl) (by decide)
    | cons c others =>
      have hblank : isBlank c = true := List.all_eq_true.1 hbetween _ List.mem_cons_self
      rcases hhead c rfl with hpart | rfl
      · rw [Lexeme.isNamePart_of_isBlank hblank] at hpart
        cases hpart
      · cases hblank

/-! ### Members that are read back -/

namespace Expr

/-- A number that is read back is finite and has no sign. -/
theorem exists_finite_of_reads {grid : Grid} {number : Number}
    (h : Reads grid (literal (.number number)).text (.literal (.number number))) :
    ∃ m, number = .signed false m ∧ m.isInfinite = false := by
  obtain ⟨row, ⟨spelling, blanks, htext, -, hspells⟩, hderives⟩ := h
  obtain rfl := (hderives.target_of_isOperation rfl).eq_number
  obtain ⟨before, source, rest, rfl, hbefore, hmade, -⟩ := exists_of_spells_token hspells
  cases hmade with
  | sign hmem => simp [Lexeme.signs] at hmem
  | @number c digits _ m hdigit =>
    refine ⟨m, rfl, ?_⟩
    by_contra hinfinite
    have hinf : (literal (.number (.signed false m))).text = ['i', 'n', 'f'] := by
      change m.text = _
      rw [Magnitude.text, if_pos (by simpa using hinfinite)]
      rfl
    rw [hinf] at htext
    cases before with
    | nil =>
      obtain rfl : 'i' = c := (List.cons.inj htext).1
      cases hdigit
    | cons d others =>
      obtain rfl : 'i' = d := (List.cons.inj htext).1
      cases hbefore

/-- The **target** of a member, or of a call of one. -/
def target? : Expr → Option Expr
  | .member target _ | .memberCall target _ _ => some target
  | _ => none

/-- A member is written with a dot and a name behind its target. -/
theorem exists_text_of_target? {grid : Grid} {node target : Expr}
    (htarget : node.target? = some target) (hform : WellFormed grid node) :
    ∃ n tail, IsName n ∧ (∀ c ∈ tail.head?, c = '(') ∧
      node.text = target.text ++ '.' :: (n.toList ++ tail) := by
  cases node with
  | member target n =>
    cases htarget
    exact ⟨n, [], hform.1, by simp, by simp [text]⟩
  | memberCall target n arguments =>
    cases htarget
    exact ⟨n, '(' :: (argumentsText arguments ++ [')']), hform.1, by simp, by simp [text]⟩
  | _ => cases htarget

/-- The items of a member are those of its target with a dot behind them. -/
theorem exists_of_derives_member {grid : Grid} {items : List Item}
    {node target : Expr} (h : Derives grid .target items node)
    (htarget : node.target? = some target) :
    ∃ first second, items = first ++ .token .dot :: second ∧ Derives grid .target first target := by
  cases h with
  | ofAtom h =>
    cases h with
    | name hstands => cases hstands <;> cases htarget
    | _ => cases htarget
  | member h =>
    cases htarget
    exact ⟨_, _, rfl, h⟩
  | memberCall h =>
    cases htarget
    exact ⟨_, _, rfl, h⟩

/-- A member of a number is **never read back**. -/
theorem not_reads_of_number {grid : Grid} {node : Expr} {number : Number}
    (htarget : node.target? = some (.literal (.number number))) (hform : WellFormed grid node)
    (hreads : Reads grid (literal (.number number)).text (.literal (.number number))) :
    ¬ Reads grid node.text node := by
  obtain ⟨m, rfl, hm⟩ := exists_finite_of_reads hreads
  obtain ⟨n, tail, hn, htail, hnode⟩ := exists_text_of_target? htarget hform
  rintro ⟨row, ⟨spelling, blanks, htext, -, hspells⟩, hderives⟩
  have hoperation : node.isOperation = false := by
    cases node <;> first | rfl | cases htarget
  obtain ⟨first, second, rfl, hfirst⟩ :=
    exists_of_derives_member (hderives.target_of_isOperation hoperation) htarget
  rw [hfirst.eq_number] at hspells
  exact not_spells_number_dot hm hn htail (hnode.symm.trans htext) hspells

variable {env : Env} {options : Options}

/-- Without templates and folding, to compile is to read what is not nested too deeply. -/
theorem compile_eq_ok_iff_reads (htemplates : options.expandTemplates = false)
    (hoptimize : options.optimize = false) {text : List Char} {e : Expr} :
    compile env options text = .ok e ↔ Reads env.grid text e ∧ e.nesting ≤ nestingLimit := by
  rw [compile_eq_ok_iff htemplates, hoptimize]
  simp only [settled_false]
  exact ⟨fun ⟨_, hreads, hnesting, heq⟩ => heq ▸ ⟨hreads, hnesting⟩,
    fun ⟨hreads, hnesting⟩ => ⟨e, hreads, hnesting, rfl⟩⟩

/-- **Members are read back.** Without templates and folding, a member in an expression that was
read is read back when its target and its arguments are, except where the target is a number. -/
theorem compile_text_member_iff (htemplates : options.expandTemplates = false)
    (hoptimize : options.optimize = false) {source : List Char} {e node target : Expr}
    (hcompile : compile env options source = .ok e) (hnode : node ∈ e.nodes)
    (htarget : node.target? = some target)
    (hagain : compile env options target.text = .ok target)
    (harguments : ∀ arguments, node.arguments? = some arguments →
      ∀ a ∈ arguments.expressions, compile env options a.text = .ok a) :
    compile env options node.text = .ok node ↔ ∀ n, target ≠ .literal (.number n) := by
  have hplain : ∀ {text : List Char} {e : Expr}, compile env options text = .ok e ↔
      Reads env.grid text e ∧ e.nesting ≤ nestingLimit :=
    compile_eq_ok_iff_reads htemplates hoptimize
  obtain ⟨hreads, hnesting⟩ := hplain.1 hcompile
  have hform : WellFormed env.grid node := (everywhere_of_reads hreads node hnode).wellFormed
  have htargetReads := (hplain.1 hagain).1
  constructor
  · rintro h n rfl
    exact not_reads_of_number htarget hform htargetReads (hplain.1 h).1
  · intro hnumber
    refine hplain.2 ⟨?_, (nesting_le_of_mem_nodes hnode).trans hnesting⟩
    cases node with
    | member =>
      cases htarget
      exact reads_member htargetReads hform hnumber
    | memberCall =>
      cases htarget
      exact reads_memberCall htargetReads hform hnumber
        fun a ha => (hplain.1 (harguments _ rfl a ha)).1
    | _ => cases htarget

/-- In `f(x).a` the target is a call. -/
theorem compile_text_member_call :
    compile ⟨⟨9, 9⟩, .empty⟩ { optimize := false }
      (text (.member (.call "f" (.leaf (.name "x"))) "a")) =
        .ok (.member (.call "f" (.leaf (.name "x"))) "a") := by
  have hcompile : compile ⟨⟨9, 9⟩, .empty⟩ { optimize := false }
      ['f', '(', 'x', ')', ' ', '.', 'a'] = .ok (.member (.call "f" (.leaf (.name "x"))) "a") := by
    cbv
  have htarget : compile ⟨⟨9, 9⟩, .empty⟩ { optimize := false }
      (text (.call "f" (.leaf (.name "x")))) = .ok (.call "f" (.leaf (.name "x"))) := by cbv
  have hnoArguments : ∀ arguments : ArgTree Expr, none = some arguments →
      ∀ a ∈ arguments.expressions, compile ⟨⟨9, 9⟩, .empty⟩ { optimize := false } a.text = .ok a :=
    fun _ h => absurd h.symm (Option.some_ne_none _)
  refine (compile_text_member_iff rfl rfl hcompile (mem_nodes_self _) rfl htarget hnoArguments).2 ?_
  intro n heq
  cases heq

/-- A member of a number is **not** read back, although the number is: `0 .e5` is written as `0.e5`,
and that is a number again. -/
theorem compile_text_member_number :
    compile ⟨⟨9, 9⟩, .empty⟩ { optimize := false } ['0', ' ', '.', 'e', '5'] =
        .ok (.member (.literal (.number .zero)) "e5") ∧
      compile ⟨⟨9, 9⟩, .empty⟩ { optimize := false } (text (.literal (.number .zero))) =
        .ok (.literal (.number .zero)) ∧
      compile ⟨⟨9, 9⟩, .empty⟩ { optimize := false }
        (text (.member (.literal (.number .zero)) "e5")) = .ok (.literal (.number .zero)) :=
  ⟨by cbv, by cbv, by cbv⟩

end Expr

end GridFormula
