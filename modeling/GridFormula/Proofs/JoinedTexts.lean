import GridFormula.Proofs.Items
import GridFormula.Proofs.RawSplit
import GridFormula.Proofs.Tokenizer

/-!
# Joined texts

Texts that are joined with a separator between them are given back one after the other, under two
conditions. None of them has the separator at its top, since it would be given in parts. And each
text that a separator stands behind is made of items: in front of that separator the scan is at the
top again, and nothing that was left open takes the separator in. Only the last text may leave a
quotation or a group open, or end in a backslash.

Nothing else is asked of the texts, which may be empty, and no less would do: the pieces of any text
are as the conditions say.

## Main results

* `Scan.pieces_intercalate_iff`: the texts that are the pieces of what they make up together.
* `Scan.Tokenizer.nth_intercalate_iff`: the texts that are given back.
-/

namespace GridFormula.Scan

variable {sep : Char} {texts : List (List Char)}

/-- Texts are the **pieces** of what they make up together exactly when none has a separator at its
top and all but the last are complete. -/
theorem pieces_intercalate_iff :
    pieces sep ([sep].intercalate texts) = texts ↔
      texts ≠ [] ∧ (∀ text ∈ texts, hasSeparator sep text = false) ∧
        ∀ text ∈ texts.dropLast, Complete text := by
  constructor
  · intro h
    have hnone : ∀ piece ∈ pieces sep ([sep].intercalate texts), hasSeparator sep piece = false :=
      List.forall_mem_cons.2 (hasSeparator_of_piecesFrom sep .top _)
    have hcomplete : ∀ piece ∈ (pieces sep ([sep].intercalate texts)).dropLast, Complete piece :=
      complete_of_mem_pieces
    rw [h] at hnone hcomplete
    refine ⟨?_, hnone, hcomplete⟩
    rintro rfl
    cases h
  · rintro ⟨hne, hnone, hcomplete⟩
    exact pieces_intercalate hne hcomplete hnone

/-- A group that is left open takes in the separator behind it. -/
example : pieces ',' ([','].intercalate [['('], [')']]) = [['(', ',', ')']] := by decide

namespace Tokenizer

/-- **Reading piece by piece undoes joining**: texts joined with a separator are given back in
order, and then nothing, exactly when there is one at least, none has the separator at its top, and
all but the last are made of items. -/
theorem nth_intercalate_iff (hsep : sep.toNat < 0x80) (texts : List (List Char)) :
    (∀ n, Option.map Prod.snd <$> nth n (start ([sep].intercalate texts) sep) = .ok texts[n]?) ↔
      texts ≠ [] ∧ (∀ text ∈ texts, hasSeparator sep text = false) ∧
        ∀ text ∈ texts.dropLast,
          ∃ items : List (List Char), text = items.flatten ∧ ∀ item ∈ items, IsItem item := by
  have hnth : ∀ n, Option.map Prod.snd <$> nth n (start ([sep].intercalate texts) sep) =
      .ok (pieces sep ([sep].intercalate texts))[n]? := by
    intro n
    have htoken := nth_eq hsep (.rest (.whole ([sep].intercalate texts))) n
    have hpiece := congrArg (·[n]?) (map_snd_withOffsets 0 (pieces sep ([sep].intercalate texts)))
    rw [start, htoken, ← hpiece, List.getElem?_map]
    rfl
  simp only [hnth, Except.ok.injEq, ← complete_iff_exists_items, ← pieces_intercalate_iff]
  exact List.ext_getElem?_iff.symm

/-- A group with a comma in it, an empty text, an escaped comma, and a quotation that is left open
are given back. -/
theorem nth_intercalate_unclosed : ','.toNat < 0x80 ∧
    ∀ n, Option.map Prod.snd <$>
      nth n (start ['(', ',', ')', ',', ',', '\\', ',', ',', '\'', ','] ',') =
        .ok [['(', ',', ')'], [], ['\\', ','], ['\'', ',']][n]? := by
  have hbody : GroupBody .round [','] :=
    .char (by decide) (by decide) (by decide) (by decide) .nil
  have hgroup : IsItem ['(', ',', ')'] := .group hbody
  have hitems : ∀ text ∈ [['(', ',', ')'], [], ['\\', ',']],
      ∃ items : List (List Char), text = items.flatten ∧ ∀ item ∈ items, IsItem item := by
    simp only [List.forall_mem_cons]
    refine ⟨⟨[['(', ',', ')']], rfl, ?_⟩, ⟨[], rfl, ?_⟩, ⟨[['\\', ',']], rfl, ?_⟩, ?_⟩
    · exact List.forall_mem_singleton.2 hgroup
    · exact List.forall_mem_nil _
    · exact List.forall_mem_singleton.2 (.escape ',')
    · exact List.forall_mem_nil _
  have hsep : ','.toNat < 0x80 := by decide
  exact ⟨hsep, (nth_intercalate_iff hsep [['(', ',', ')'], [], ['\\', ','], ['\'', ',']]).2
    ⟨by decide, by decide, hitems⟩⟩

end Tokenizer

end GridFormula.Scan
