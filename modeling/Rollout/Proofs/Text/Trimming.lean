import Mathlib.Data.List.Basic
import Mathlib.Data.List.TakeWhile
import Rollout.Text.Blank

/-!
# Trimmed texts

A text without the blanks at its ends is told without the way in which it is found: it is what is
left between blanks, and it neither begins nor ends with a blank (`Trims`). There is just one such
text, and trimming finds it (`trims_iff`).
-/

namespace Rollout.Text

variable {cs inner before after : List Char}

/-- `inner` is what is left of a text without the blanks at its ends. -/
structure Trims (cs inner : List Char) : Prop where
  spelled : ∃ before after, cs = before ++ inner ++ after ∧
    (∀ c ∈ before, isBlank c = true) ∧ ∀ c ∈ after, isBlank c = true
  first : ∀ c ∈ inner.head?, isBlank c = false
  last : ∀ c ∈ inner.getLast?, isBlank c = false

/-- A text with no blanks at its ends is left as it is. -/
theorem trims_self (first : ∀ c ∈ cs.head?, isBlank c = false)
    (last : ∀ c ∈ cs.getLast?, isBlank c = false) : Trims cs cs :=
  ⟨⟨[], [], by simp, List.forall_mem_nil _, List.forall_mem_nil _⟩, first, last⟩

/-- What is left once blanks are dropped does not start with one. -/
theorem head?_dropBlanks (cs : List Char) : ∀ c ∈ (dropBlanks cs).head?, isBlank c = false := by
  intro c hc
  have h := List.head?_dropWhile_not isBlank cs
  unfold dropBlanks at hc
  rw [Option.mem_def.1 hc] at h
  exact h

/-- Blanks in front of a text that does not begin with one are dropped. -/
theorem dropBlanks_append (hbefore : ∀ c ∈ before, isBlank c = true)
    (hinner : ∀ c ∈ inner.head?, isBlank c = false) : dropBlanks (before ++ inner) = inner := by
  unfold dropBlanks
  rw [List.dropWhile_append_of_pos hbefore]
  cases inner with
  | nil => rfl
  | cons c cs => exact List.dropWhile_cons_of_neg (by simp [hinner c rfl])

/-- Trailing blanks are the leading ones of the reversed text. -/
theorem dropTrailingBlanks_eq (cs : List Char) :
    dropTrailingBlanks cs = (dropBlanks cs.reverse).reverse := rfl

/-- Blanks after a text that does not end with one are dropped. -/
theorem dropTrailingBlanks_append (hafter : ∀ c ∈ after, isBlank c = true)
    (hinner : ∀ c ∈ inner.getLast?, isBlank c = false) :
    dropTrailingBlanks (inner ++ after) = inner := by
  rw [dropTrailingBlanks_eq, List.reverse_append, dropBlanks_append, List.reverse_reverse]
  · intro c hc
    exact hafter c (List.mem_reverse.1 hc)
  · rwa [List.head?_reverse]

/-- What is dropped in front of a text are blanks. -/
theorem exists_append_dropBlanks (cs : List Char) :
    ∃ before, cs = before ++ dropBlanks cs ∧ ∀ c ∈ before, isBlank c = true := by
  refine ⟨cs.takeWhile isBlank, List.takeWhile_append_dropWhile.symm, ?_⟩
  intro c hc
  exact List.mem_takeWhile_imp hc

/-- What is dropped after a text are blanks. -/
theorem exists_dropTrailingBlanks_append (cs : List Char) :
    ∃ after, cs = dropTrailingBlanks cs ++ after ∧ ∀ c ∈ after, isBlank c = true := by
  obtain ⟨before, hcs, hbefore⟩ := exists_append_dropBlanks cs.reverse
  refine ⟨before.reverse, ?_, ?_⟩
  · rw [dropTrailingBlanks_eq, ← List.reverse_append, ← hcs, List.reverse_reverse]
  · intro c hc
    exact hbefore c (List.mem_reverse.1 hc)

/-- To trim a text trims it. -/
theorem trims_trimChars (cs : List Char) : Trims cs (trimChars cs) := by
  obtain ⟨before, hcs, hbefore⟩ := exists_append_dropBlanks cs
  obtain ⟨after, hrest, hafter⟩ := exists_dropTrailingBlanks_append (dropBlanks cs)
  refine ⟨⟨before, after, ?_, hbefore, hafter⟩, ?_, ?_⟩
  · unfold trimChars
    rw [List.append_assoc, ← hrest, ← hcs]
  · -- what comes first after the blanks in front is not dropped later
    intro c hc
    apply head?_dropBlanks cs
    rw [hrest, List.head?_append]
    exact Option.mem_def.2 (by rw [show (dropTrailingBlanks _).head? = some c from hc]; rfl)
  · intro c hc
    unfold trimChars at hc
    rw [dropTrailingBlanks_eq, List.getLast?_reverse] at hc
    exact head?_dropBlanks _ c hc

/-- Only one text is left between the blanks at the ends. -/
theorem trims_iff : Trims cs inner ↔ trimChars cs = inner := by
  constructor
  · rintro ⟨⟨before, after, rfl, hbefore, hafter⟩, hfirst, hlast⟩
    unfold trimChars
    by_cases hinner : inner = []
    · subst hinner
      have hblank : ∀ c ∈ before ++ after, isBlank c = true :=
        fun c hc => (List.mem_append.1 hc).elim (hbefore c) (hafter c)
      have hnone : ∀ c ∈ ([] : List Char).head?, isBlank c = false := fun _ hc => nomatch hc
      rw [List.append_nil, ← List.append_nil (before ++ after), dropBlanks_append hblank hnone]
      rfl
    · rw [List.append_assoc, dropBlanks_append hbefore, dropTrailingBlanks_append hafter hlast]
      rwa [List.head?_append_of_ne_nil _ hinner]
  · rintro rfl
    exact trims_trimChars cs

/-- What a text becomes when it is trimmed, told by `Trims`. -/
theorem trim_eq_iff {s t : String} : trim s = t ↔ Trims s.toList t.toList := by
  rw [trims_iff, trim, ← String.toList_inj, String.toList_ofList]

/-- A text is trimmed to nothing exactly if it is blank. -/
theorem Trims.eq_nil_iff (h : Trims cs inner) : inner = [] ↔ ∀ c ∈ cs, isBlank c = true := by
  obtain ⟨⟨before, after, rfl, hbefore, hafter⟩, hfirst, hlast⟩ := h
  constructor
  · rintro rfl c hc
    rw [List.append_nil] at hc
    exact (List.mem_append.1 hc).elim (hbefore c) (hafter c)
  · intro h
    rcases inner with _ | ⟨c, cs⟩
    · rfl
    · have hblank := h c (by simp)
      rw [hfirst c rfl] at hblank
      cases hblank

/-- What is no blank is kept. -/
theorem Trims.mem_of_not_blank {c : Char} (h : Trims cs inner) (hc : c ∈ cs)
    (hblank : isBlank c = false) : c ∈ inner := by
  obtain ⟨⟨before, after, rfl, hbefore, hafter⟩, -, -⟩ := h
  have hkept : ∀ ds : List Char, (∀ d ∈ ds, isBlank d = true) → c ∉ ds := by
    intro ds hds hmem
    rw [hds c hmem] at hblank
    cases hblank
  simpa [hkept before hbefore, hkept after hafter] using hc

end Rollout.Text
