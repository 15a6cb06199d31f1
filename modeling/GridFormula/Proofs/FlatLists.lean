import GridFormula.Proofs.Blame
import GridFormula.Proofs.Flattening
import GridFormula.Proofs.Templates

/-!
# Flat lists

Functions that take a list of arguments read them as a flat list, which a tree is when none of its
slots holds a group. Such a list is what flattening the tree gives anyway: the two differ only in
that a flat list is refused, in the name of the function, where flattening would go on into a slot.

## Main definitions

* `ArgTree.IsFlat`: the trees that are read as a flat list.

## Main results

* `ArgTree.toFlatList_eq_ok_iff`, `ArgTree.toFlatList_eq_error_iff`: both outcomes, for any tree.
* `ArgTree.toFlatList_flattens`: a flat list is the list of all leaves, one for each slot.
-/

namespace GridFormula.ArgTree

variable {ε : Type}

/-- A tree is **flat** when it is one expression, or a group in which no slot is a group. Only where
`allowOmitted` is set may arguments be left out of it. -/
inductive IsFlat (allowOmitted : Bool) : ArgTree ε → Prop
  /-- An expression is a list of one entry. -/
  | leaf (e : ε) : IsFlat allowOmitted (.leaf e)
  /-- A group is a list with an entry for each slot. -/
  | group (level : Level) {slots : List (ArgTree ε)} (hflat : ∀ slot ∈ slots, slot.level? = none)
      (homitted : allowOmitted = true ∨ ∀ slot ∈ slots, slot.isOmitted = false) :
      IsFlat allowOmitted (.group level slots)
  /-- An argument that was left out is an entry as well. -/
  | omitted (hallow : allowOmitted = true) : IsFlat allowOmitted .omitted

/-- Where nothing is left out, it does not matter whether it may be. -/
theorem IsFlat.allow {tree : ArgTree ε} (h : tree.IsFlat false) : tree.IsFlat true := by
  cases h with
  | leaf e => exact .leaf e
  | group level hflat _ => exact .group level hflat (.inl rfl)
  | omitted hallow => cases hallow

section Reading

variable {function : String} {allowOmitted : Bool}

/-- A slot gives its only leaf, unless it is a group or must not be left out. -/
theorem flatSlot_eq_ok_iff {slot : ArgTree ε} {entry : Option ε} :
    flatSlot function allowOmitted slot = .ok entry ↔
      (slot.level? = none ∧ (allowOmitted = true ∨ slot.isOmitted = false)) ∧
        slot.leaves = [entry] := by
  cases slot with
  | omitted => cases allowOmitted <;> simp [flatSlot, level?, isOmitted, leaves]
  | leaf e => simp [flatSlot, level?, isOmitted, leaves]
  | group level slots => simp [flatSlot, level?]

theorem flatSlot_eq_error {slot : ArgTree ε} {error : Error}
    (h : flatSlot function allowOmitted slot = .error error) :
    error = .invalidParameter (some function) := by
  cases slot with
  | omitted => cases allowOmitted <;> cases h; rfl
  | leaf e => cases h
  | group level slots => cases h; rfl

/-- Slots that are no groups have one leaf each. -/
theorem forall₂_slotsLeaves {slots : List (ArgTree ε)} (h : ∀ slot ∈ slots, slot.level? = none) :
    List.Forall₂ (fun slot entry => slot.leaves = [entry]) slots (slotsLeaves slots) := by
  induction slots with
  | nil => exact .nil
  | cons slot others ih =>
    obtain ⟨hslot, hothers⟩ := List.forall_mem_cons.1 h
    cases slot with
    | omitted => exact .cons rfl (ih hothers)
    | leaf e => exact .cons rfl (ih hothers)
    | group level slots => cases hslot

/-- What slots with one leaf each have for their leaves. -/
theorem slotsLeaves_of_forall₂ {slots : List (ArgTree ε)} {entries : List (Option ε)}
    (h : List.Forall₂ (fun slot entry => slot.leaves = [entry]) slots entries) :
    slotsLeaves slots = entries := by
  induction h with
  | nil => rfl
  | cons hslot _ ih => rw [slotsLeaves, hslot, ih, List.singleton_append]

theorem mapM_flatSlot_eq_ok_iff {slots : List (ArgTree ε)} {entries : List (Option ε)} :
    slots.mapM (flatSlot function allowOmitted) = .ok entries ↔
      ((∀ slot ∈ slots, slot.level? = none) ∧
          (allowOmitted = true ∨ ∀ slot ∈ slots, slot.isOmitted = false)) ∧
        entries = slotsLeaves slots := by
  rw [Template.mapM_eq_ok_iff]
  simp only [flatSlot_eq_ok_iff, List.forall₂_and_left, forall_and, forall_or_left]
  constructor
  · rintro ⟨hslots, hentries⟩
    exact ⟨hslots, (slotsLeaves_of_forall₂ hentries).symm⟩
  · rintro ⟨hslots, rfl⟩
    exact ⟨hslots, forall₂_slotsLeaves hslots.1⟩

theorem isFlat_group_iff {level : Level} {slots : List (ArgTree ε)} :
    (group level slots).IsFlat allowOmitted ↔ (∀ slot ∈ slots, slot.level? = none) ∧
      (allowOmitted = true ∨ ∀ slot ∈ slots, slot.isOmitted = false) := by
  constructor
  · rintro (_ | ⟨_, hflat, homitted⟩)
    exact ⟨hflat, homitted⟩
  · rintro ⟨hflat, homitted⟩
    exact .group level hflat homitted

/-- A tree is read as a flat list when it is **flat**, and as the list of its leaves. -/
theorem toFlatList_eq_ok_iff {tree : ArgTree ε} {entries : List (Option ε)} :
    tree.toFlatList function allowOmitted = .ok entries ↔
      tree.IsFlat allowOmitted ∧ entries = tree.leaves := by
  cases tree with
  | omitted =>
    have hflat : (omitted : ArgTree ε).IsFlat allowOmitted ↔ allowOmitted = true :=
      ⟨fun h => by cases h; assumption, .omitted⟩
    rw [hflat]
    cases allowOmitted <;> simp [toFlatList, flatSlot, Except.map, leaves, eq_comm]
  | leaf e =>
    have hflat : (leaf e).IsFlat allowOmitted := .leaf e
    simp [toFlatList, flatSlot, Except.map, leaves, hflat, eq_comm]
  | group level slots => rw [toFlatList, mapM_flatSlot_eq_ok_iff, isFlat_group_iff, leaves]

theorem eq_of_toFlatList_eq_error {tree : ArgTree ε} {error : Error}
    (h : tree.toFlatList function allowOmitted = .error error) :
    error = .invalidParameter (some function) := by
  cases tree with
  | omitted => cases allowOmitted <;> cases h; rfl
  | leaf e => cases h
  | group level slots =>
    obtain ⟨_, _, _, -, -, hslot⟩ := mapM_eq_error_iff.1 h
    exact flatSlot_eq_error hslot

/-- A tree that is not flat is refused **in the name of the function**. -/
theorem toFlatList_eq_error_iff {tree : ArgTree ε} {error : Error} :
    tree.toFlatList function allowOmitted = .error error ↔
      ¬tree.IsFlat allowOmitted ∧ error = .invalidParameter (some function) := by
  constructor
  · intro h
    refine ⟨fun hflat => ?_, eq_of_toFlatList_eq_error h⟩
    have hok : tree.toFlatList function allowOmitted = .ok tree.leaves :=
      toFlatList_eq_ok_iff.2 ⟨hflat, rfl⟩
    rw [h] at hok
    cases hok
  · rintro ⟨hflat, rfl⟩
    cases h : tree.toFlatList function allowOmitted with
    | ok entries => exact absurd (toFlatList_eq_ok_iff.1 h).1 hflat
    | error error => rw [eq_of_toFlatList_eq_error h]

end Reading

/-- **Reading a flat list is flattening a flat tree.** It succeeds just when the tree is flat, with
what flattening adds to any list that is held: one entry for each slot, in order. Otherwise the
function is named. To allow that arguments are left out changes no list that is read without. -/
theorem toFlatList_flattens (function : String) (allowOmitted : Bool) (tree : ArgTree ε) :
    ((∃ entries, tree.toFlatList function allowOmitted = .ok entries) ↔
        tree.IsFlat allowOmitted) ∧
      (∀ entries, tree.toFlatList function allowOmitted = .ok entries →
        (∀ held, addLeaves tree held = held ++ entries) ∧
          ∀ level slots, tree = .group level slots →
            List.Forall₂ (fun slot entry => slot.leaves = [entry]) slots entries) ∧
      (∀ error, tree.toFlatList function allowOmitted = .error error →
        error = .invalidParameter (some function)) ∧
      ∀ entries, tree.toFlatList function false = .ok entries →
        tree.toFlatList function true = .ok entries := by
  refine ⟨?_, fun entries h => ?_, fun _ => eq_of_toFlatList_eq_error, fun entries h => ?_⟩
  · simp [toFlatList_eq_ok_iff]
  · obtain ⟨hflat, rfl⟩ := toFlatList_eq_ok_iff.1 h
    refine ⟨addLeaves_eq_append tree, ?_⟩
    rintro level slots rfl
    exact forall₂_slotsLeaves (isFlat_group_iff.1 hflat).1
  · obtain ⟨hflat, rfl⟩ := toFlatList_eq_ok_iff.1 h
    exact toFlatList_eq_ok_iff.2 ⟨hflat.allow, rfl⟩

/-- A list with an argument left out is read only where that is allowed. -/
theorem toFlatList_left_out :
    let tree : ArgTree String := .group .comma [.leaf "a", .omitted, .leaf "b"]
    tree.toFlatList "SUM" true = .ok [some "a", none, some "b"] ∧
      (∀ held, addLeaves tree held = held ++ [some "a", none, some "b"]) ∧
      tree.toFlatList "SUM" false = .error (.invalidParameter (some "SUM")) := by
  intro tree
  obtain ⟨-, hadd, -⟩ := toFlatList_flattens "SUM" true tree
  exact ⟨rfl, (hadd _ rfl).1, rfl⟩

end GridFormula.ArgTree
