import Rollout.Text.Split

/-!
# Joined texts

Texts that are joined by a separator which is in none of them are the pieces between the separators
of what comes out (`split_intercalate`), and a text is cut at its first separator
(`cutAt_eq_some_iff`).
-/

namespace Rollout.Text

variable {sep : Char} {pieces : List (List Char)} {texts : List String} {text before after : String}

/-- Joined pieces are the pieces with a separator before each of them but the first. -/
theorem flatMap_eq_cons_intercalate (sep : Char) (hne : pieces ≠ []) :
    pieces.flatMap (sep :: ·) = sep :: [sep].intercalate pieces := by
  induction pieces with
  | nil => exact absurd rfl hne
  | cons p ps ih =>
    cases ps with
    | nil => simp [List.intercalate]
    | cons q qs =>
      rw [List.flatMap_cons, ih (List.cons_ne_nil q qs), List.intercalate_cons_cons]
      simp

/-- Joined pieces without separators are found again. -/
theorem splitOn_intercalate (hne : pieces ≠ []) (h : ∀ piece ∈ pieces, sep ∉ piece) :
    splitOn sep ([sep].intercalate pieces) = pieces :=
  splitOn_eq_iff.2 ⟨flatMap_eq_cons_intercalate sep hne, h⟩

/-- Joined texts without separators are found again. -/
theorem split_intercalate (hne : texts ≠ []) (h : ∀ t ∈ texts, sep ∉ t.toList) :
    split sep ((String.singleton sep).intercalate texts) = texts := by
  have hpieces : ∀ piece ∈ texts.map String.toList, sep ∉ piece := by
    intro piece hpiece
    obtain ⟨t, ht, rfl⟩ := List.mem_map.1 hpiece
    exact h t ht
  unfold split
  rw [String.toList_intercalate, String.toList_singleton,
    splitOn_intercalate (by simpa using hne) hpieces, List.map_map]
  simp

/-- A text without a separator is not cut. -/
theorem split_of_notMem (h : sep ∉ text.toList) : split sep text = [text] := by
  unfold split
  rw [splitOn_of_notMem h, List.map_singleton, String.ofList_toList]

/-- What stands before the first separator is the first piece. -/
theorem split_append (h : sep ∉ before.toList) (after : String) :
    split sep (before ++ String.singleton sep ++ after) = before :: split sep after := by
  have htext : (before ++ String.singleton sep ++ after).toList =
      before.toList ++ sep :: after.toList := by simp
  unfold split
  rw [htext, splitOn_append h, List.map_cons, String.ofList_toList]

/-- No piece of a text holds a separator. -/
theorem notMem_of_mem_split {piece : String} (h : piece ∈ split sep text) :
    sep ∉ piece.toList := by
  obtain ⟨cs, hcs, rfl⟩ := List.mem_map.1 h
  rw [String.toList_ofList]
  exact notMem_of_mem_splitOn hcs

/-- A text is cut at its first separator. -/
theorem cutAt_eq_some_iff : cutAt sep text = some (before, after) ↔
    text = before ++ String.singleton sep ++ after ∧ sep ∉ before.toList := by
  unfold cutAt
  rw [Option.map_eq_some_iff]
  constructor
  · rintro ⟨⟨cs, rest⟩, hcut, heq⟩
    obtain ⟨rfl, rfl⟩ := Prod.mk.inj heq
    obtain ⟨htext, hmem⟩ := cut_eq_some hcut
    refine ⟨String.toList_inj.1 ?_, ?_⟩
    · rw [htext]
      simp
    · rwa [String.toList_ofList]
  · rintro ⟨rfl, hmem⟩
    have hcut := cut_append hmem after.toList
    exact ⟨_, by simpa using hcut, by simp only [String.ofList_toList]⟩

/-- A text is not cut if it has no separator. -/
theorem cut_eq_none_iff {cs : List Char} : cut sep cs = none ↔ sep ∉ cs := by
  constructor
  · intro hcut hmem
    obtain ⟨before, after, rfl, hbefore⟩ := List.eq_append_cons_of_mem hmem
    rw [cut_append hbefore] at hcut
    cases hcut
  · intro h
    cases hcut : cut sep cs with
    | none => rfl
    | some parts =>
      obtain ⟨rfl, -⟩ := cut_eq_some hcut
      exact absurd (List.mem_append_right _ List.mem_cons_self) h

/-- A text without the separator is not cut. -/
theorem cutAt_eq_none_iff : cutAt sep text = none ↔ sep ∉ text.toList := by
  rw [cutAt, Option.map_eq_none_iff, cut_eq_none_iff]

end Rollout.Text
