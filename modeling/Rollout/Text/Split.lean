/-!
# Cutting a text at a separator

A text is cut at the first separator, or into the pieces between all of them. The pieces joined by
the separator give the text back, and no piece holds a separator.
-/

namespace Rollout.Text

/-- The pieces between the separators: one more than there are separators. -/
def splitOn (sep : Char) : List Char → List (List Char)
  | [] => [[]]
  | c :: cs =>
    if c = sep then [] :: splitOn sep cs
    else match splitOn sep cs with
      | [] => [[c]]
      | piece :: pieces => (c :: piece) :: pieces

/-- What stands before and after the first separator. -/
def cut (sep : Char) : List Char → Option (List Char × List Char)
  | [] => none
  | c :: cs =>
    if c = sep then some ([], cs)
    else (cut sep cs).map fun (before, after) => (c :: before, after)

/-- The texts of the pieces between the separators. -/
def split (sep : Char) (s : String) : List String := (splitOn sep s.toList).map .ofList

/-- The texts before and after the first separator. -/
def cutAt (sep : Char) (s : String) : Option (String × String) :=
  (cut sep s.toList).map fun (before, after) => (.ofList before, .ofList after)

/-- The rest of a text after a given beginning. -/
def dropBeginning (start s : String) : Option String :=
  (start.toList.isPrefixOf? s.toList).map .ofList

/-- A text has at least one piece. -/
theorem splitOn_ne_nil (sep : Char) (cs : List Char) : splitOn sep cs ≠ [] := by
  cases cs with
  | nil => simp [splitOn]
  | cons c cs =>
    rw [splitOn]
    split
    · simp
    · split <;> simp

/-- The pieces, joined by the separator, are the text. -/
theorem intercalate_splitOn (sep : Char) (cs : List Char) :
    [sep].intercalate (splitOn sep cs) = cs := by
  induction cs with
  | nil => rfl
  | cons c cs ih =>
    rw [splitOn]
    split
    · rename_i h
      subst h
      cases hs : splitOn c cs with
      | nil => exact absurd hs (splitOn_ne_nil c cs)
      | cons p ps => rw [hs] at ih; simp [List.intercalate, List.intersperse] at ih ⊢; exact ih
    · cases hs : splitOn sep cs with
      | nil => exact absurd hs (splitOn_ne_nil sep cs)
      | cons p ps =>
        rw [hs] at ih
        cases ps with
        | nil => simp [List.intercalate, List.intersperse] at ih ⊢; exact ih
        | cons q qs => simp [List.intercalate, List.intersperse] at ih ⊢; exact ih

/-- The pieces, with a separator before each of them, are the text with one before it. -/
theorem flatMap_splitOn (sep : Char) (cs : List Char) :
    (splitOn sep cs).flatMap (sep :: ·) = sep :: cs := by
  induction cs with
  | nil => simp [splitOn]
  | cons c cs ih =>
    rw [splitOn]
    split
    · rename_i h
      rw [List.flatMap_cons, ih, h]
      rfl
    · cases hs : splitOn sep cs with
      | nil => exact absurd hs (splitOn_ne_nil sep cs)
      | cons p ps =>
        rw [hs, List.flatMap_cons, List.cons_append, List.cons.injEq] at ih
        rw [List.flatMap_cons, List.cons_append, List.cons_append, ih.2]

/-- No piece holds a separator. -/
theorem notMem_of_mem_splitOn {sep : Char} {cs piece : List Char} (h : piece ∈ splitOn sep cs) :
    sep ∉ piece := by
  induction cs generalizing piece with
  | nil => simp_all [splitOn]
  | cons c cs ih =>
    rw [splitOn] at h
    split at h
    · rcases List.mem_cons.1 h with rfl | h
      · exact List.not_mem_nil
      · exact ih h
    · rename_i hc
      cases hs : splitOn sep cs with
      | nil => exact absurd hs (splitOn_ne_nil sep cs)
      | cons p ps =>
        rw [hs] at h
        rcases List.mem_cons.1 h with rfl | h
        · have hp : sep ∉ p := ih (by simp [hs])
          simp [hp, Ne.symm hc]
        · exact ih (by simp [hs, h])

/-- A text without a separator is its only piece. -/
theorem splitOn_of_notMem {sep : Char} {cs : List Char} (h : sep ∉ cs) : splitOn sep cs = [cs] := by
  induction cs with
  | nil => rfl
  | cons c cs ih =>
    rw [List.mem_cons, not_or] at h
    rw [splitOn, if_neg (Ne.symm h.1), ih h.2]

/-- What stands before the first separator is the first piece. -/
theorem splitOn_append {sep : Char} {before : List Char} (h : sep ∉ before) (after : List Char) :
    splitOn sep (before ++ sep :: after) = before :: splitOn sep after := by
  induction before with
  | nil => rw [List.nil_append, splitOn, if_pos rfl]
  | cons c cs ih =>
    rw [List.mem_cons, not_or] at h
    rw [List.cons_append, splitOn, if_neg (Ne.symm h.1), ih h.2]

/-- There is one way to put a text together from pieces without separators. -/
theorem splitOn_eq_iff {sep : Char} {cs : List Char} {pieces : List (List Char)} :
    splitOn sep cs = pieces ↔
      pieces.flatMap (sep :: ·) = sep :: cs ∧ ∀ piece ∈ pieces, sep ∉ piece := by
  constructor
  · rintro rfl
    exact ⟨flatMap_splitOn sep cs, fun _ => notMem_of_mem_splitOn⟩
  · rintro ⟨hcs, hpieces⟩
    induction pieces generalizing cs with
    | nil => simp at hcs
    | cons p ps ih =>
      obtain ⟨hp, hps⟩ := List.forall_mem_cons.1 hpieces
      rw [List.flatMap_cons, List.cons_append, List.cons.injEq] at hcs
      obtain ⟨-, rfl⟩ := hcs
      cases ps with
      | nil => rw [List.flatMap_nil, List.append_nil, splitOn_of_notMem hp]
      | cons q qs =>
        have hrest : splitOn sep (q ++ qs.flatMap (sep :: ·)) = q :: qs :=
          ih (by rw [List.flatMap_cons, List.cons_append]) hps
        rw [List.flatMap_cons, List.cons_append, splitOn_append hp, hrest]

/-- The pieces of two texts with a separator between them are those of the first and then those of
the second. -/
theorem splitOn_append_cons (sep : Char) (before after : List Char) :
    splitOn sep (before ++ sep :: after) = splitOn sep before ++ splitOn sep after := by
  rw [splitOn_eq_iff]
  constructor
  · rw [List.flatMap_append, flatMap_splitOn, flatMap_splitOn, List.cons_append]
  · intro piece hpiece
    exact (List.mem_append.1 hpiece).elim notMem_of_mem_splitOn notMem_of_mem_splitOn

/-- A cut finds a separator with none before it. -/
theorem cut_eq_some {sep : Char} {cs before after : List Char}
    (h : cut sep cs = some (before, after)) : cs = before ++ sep :: after ∧ sep ∉ before := by
  induction cs generalizing before with
  | nil => simp [cut] at h
  | cons c cs ih =>
    rw [cut] at h
    split at h
    · rename_i hc
      obtain ⟨rfl, rfl⟩ := Prod.mk.inj (Option.some.inj h)
      simp [hc]
    · rename_i hc
      obtain ⟨⟨b, a⟩, hba, heq⟩ := Option.map_eq_some_iff.1 h
      obtain ⟨rfl, rfl⟩ := Prod.mk.inj heq
      obtain ⟨rfl, hb⟩ := ih hba
      simp [hb, Ne.symm hc]

/-- What stands before a separator, with none in it, is cut off. -/
theorem cut_append {sep : Char} {before : List Char} (h : sep ∉ before) (after : List Char) :
    cut sep (before ++ sep :: after) = some (before, after) := by
  induction before with
  | nil => rw [List.nil_append, cut, if_pos rfl]
  | cons c cs ih =>
    rw [List.mem_cons, not_or] at h
    rw [List.cons_append, cut, if_neg (Ne.symm h.1), ih h.2, Option.map_some]

end Rollout.Text
