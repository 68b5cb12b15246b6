import Mathlib.Data.List.Forall2
import Rollout.Text.Lowercase

/-!
# Texts whose small form is in ASCII letters

A capital of any script has a small letter, but few characters have a small letter from `a` to `z`:
that letter itself, its capital, and for `k` the sign of the kelvin. So a text whose small form has
no other letters is known character by character. The main statement is `lower_eq_iff`.
-/

namespace Rollout.Text

variable {n : Nat} {c x : Char} {cs xs before after rest : List Char}

/-- A character whose small form is a letter from `a` to `z`: the letter itself, its capital, or the
sign of the kelvin for `k`. -/
def IsFormOf (c x : Char) : Prop := c = x ∨ c.toNat + 32 = x.toNat ∨ (c = '\u212A' ∧ x = 'k')

/-- The codes of the small letters of ASCII. -/
theorem toNat_of_isLower (hx : x.isLower = true) : 97 ≤ x.toNat ∧ x.toNat ≤ 122 := by
  obtain ⟨hfirst, hlast⟩ := Bool.and_eq_true_iff.1 hx
  exact ⟨UInt32.le_iff_toNat_le.1 (of_decide_eq_true hfirst),
    UInt32.le_iff_toNat_le.1 (of_decide_eq_true hlast)⟩

/-- The forms of a letter other than `k` are this letter and its capital. -/
theorem isFormOf_iff {capital : Char} (hcapital : capital.toNat + 32 = x.toNat) (hk : x ≠ 'k') :
    IsFormOf c x ↔ c = x ∨ c = capital := by
  unfold IsFormOf
  rw [← hcapital, Nat.add_right_cancel_iff, Char.toNat_inj]
  simp [hk]

/-! ## Characters -/

/-- The ASCII capitals are one run, and no other run of capitals leads to ASCII letters but that of
the sign of the kelvin. -/
theorem cases_of_mem_capitalRuns : ∀ run ∈ capitalRuns,
    run = (0x41, 0x5A, 0x61) ∨ run = (0x212A, 0x212A, 0x6B) ∨ 128 ≤ run.1 ∧ 128 ≤ run.2.2 := by
  decide +kernel

/-- The runs of paired letters lie beyond ASCII. -/
theorem le_of_mem_pairedRuns : ∀ run ∈ pairedRuns, 128 ≤ run.1 := by
  decide +kernel

/-- The sign for Kelvin lowercases to the letter `k`. -/
theorem lowerCode_kelvin : lowerCode 0x212A = 0x6B := by
  decide +kernel

/-- An ASCII capital has its small letter 32 places on. Any other character, the sign of the kelvin
apart, is its own small letter or has one beyond ASCII. -/
theorem lowerCode_cases (hkelvin : n ≠ 0x212A) :
    (65 ≤ n ∧ n ≤ 90 ∧ lowerCode n = n + 32) ∨ (¬(65 ≤ n ∧ n ≤ 90) ∧ lowerCode n = n) ∨
      (128 ≤ n ∧ 128 ≤ lowerCode n) := by
  unfold lowerCode
  split
  · next first last small hfind =>
    have hrun : first ≤ n ∧ n ≤ last := by simpa using List.find?_some hfind
    rcases cases_of_mem_capitalRuns _ (List.mem_of_find?_eq_some hfind) with heq | heq | hother
    · simp only [Prod.mk.injEq] at heq
      omega
    · simp only [Prod.mk.injEq] at heq
      omega
    · dsimp only at hother
      omega
  · next hfind =>
    have hcapital : ¬(65 ≤ n ∧ n ≤ 90) := by
      simpa using List.find?_eq_none.1 hfind (0x41, 0x5A, 0x61) (by decide)
    split
    · next hany =>
      obtain ⟨run, hmem, hrun⟩ := List.any_eq_true.1 hany
      have hfirst : 128 ≤ run.1 := le_of_mem_pairedRuns run hmem
      have hle : run.1 ≤ n := by
        simp only [Bool.and_eq_true, decide_eq_true_eq] at hrun
        exact hrun.1.1
      omega
    · exact .inr (.inl ⟨hcapital, rfl⟩)

/-- The codes of the characters whose small letter is one from `a` to `z`. -/
theorem lowerCode_eq_iff (hx : x.isLower = true) : lowerCode c.toNat = x.toNat ↔ IsFormOf c x := by
  have hbounds := toNat_of_isLower hx
  have hsign : '\u212A'.toNat = 0x212A := rfl
  have hk : 'k'.toNat = 0x6B := rfl
  unfold IsFormOf
  rw [← Char.toNat_inj, ← Char.toNat_inj, ← Char.toNat_inj, hsign, hk]
  by_cases hkelvin : c.toNat = 0x212A
  · rw [hkelvin, lowerCode_kelvin]
    omega
  · rcases lowerCode_cases hkelvin with h | h | h <;> constructor <;> intro hcode <;> omega

/-- A character whose small letter lies beyond ASCII is no form of a letter from `a` to `z`. -/
theorem not_isFormOf (hx : x.isLower = true) (hcode : 128 ≤ lowerCode c.toNat) :
    ¬IsFormOf c x := by
  have hbounds := toNat_of_isLower hx
  rw [← lowerCode_eq_iff hx]
  omega

/-- A code that gives a letter from `a` to `z` is that of the letter. -/
theorem ofNat_eq_iff (hx : x.isLower = true) : Char.ofNat n = x ↔ n = x.toNat := by
  constructor
  · intro h
    by_cases hvalid : n.isValidChar
    · rw [Char.ofNat, dif_pos hvalid] at h
      rw [← h]
      rfl
    · -- what is no code of a character gives the character zero
      rw [Char.ofNat, dif_neg hvalid] at h
      rw [← h] at hx
      cases hx
  · rintro rfl
    exact Char.ofNat_toNat x

/-- In the small form of a text a character becomes one character, except for the capital `I` with a
dot above. The one character is a letter from `a` to `z` only if it comes from a form of this
letter. -/
theorem lowerBetween_cases (before : List Char) (c : Char) (after : List Char) :
    (c = 'İ' ∧ lowerBetween before c after = ['i', '\u0307']) ∨
      ∃ y, lowerBetween before c after = [y] ∧
        ∀ x, x.isLower = true → (y = x ↔ IsFormOf c x) := by
  unfold lowerBetween lowerChar
  by_cases hsigma : c = 'Σ'
  · subst hsigma
    refine .inr ⟨_, if_pos rfl, fun x hx => ?_⟩
    refine iff_of_false ?_ (not_isFormOf hx (by decide +kernel))
    -- neither of the two forms of a sigma is in ASCII
    rintro rfl
    split at hx <;> cases hx
  · rw [if_neg hsigma]
    by_cases hdotted : c = 'İ'
    · exact .inl ⟨hdotted, if_pos hdotted⟩
    · refine .inr ⟨_, if_neg hdotted, fun x hx => ?_⟩
      rw [ofNat_eq_iff hx, lowerCode_eq_iff hx]

/-! ## Texts -/

/-- A character lowercases to the start of a word of small letters exactly if it is a form of the
first of them. -/
theorem lowerBetween_append_eq_iff (hxs : ∀ x ∈ xs, x.isLower = true) :
    lowerBetween before c after ++ rest = xs ↔
      ∃ x xs', IsFormOf c x ∧ rest = xs' ∧ xs = x :: xs' := by
  rcases lowerBetween_cases before c after with ⟨rfl, hpiece⟩ | ⟨y, hpiece, hy⟩
  · rw [hpiece]
    constructor
    · rintro rfl
      exact absurd (hxs '\u0307' (by simp)) (by decide)
    · rintro ⟨x, xs', hform, -, rfl⟩
      exact absurd hform (not_isFormOf (hxs x List.mem_cons_self) (by decide +kernel))
  · rw [hpiece, List.singleton_append]
    constructor
    · rintro rfl
      exact ⟨y, rest, (hy y (hxs y List.mem_cons_self)).1 rfl, rfl, rfl⟩
    · rintro ⟨x, xs', hform, rfl, rfl⟩
      rw [(hy x (hxs x List.mem_cons_self)).2 hform]

/-- What follows some characters has a small form of letters from `a` to `z` only if its characters
are forms of these letters, one by one. -/
theorem lowerAfter_eq_iff (hxs : ∀ x ∈ xs, x.isLower = true) :
    lowerAfter before cs = xs ↔ List.Forall₂ IsFormOf cs xs := by
  induction cs generalizing before xs with
  | nil => rw [lowerAfter, List.forall₂_nil_left_iff, eq_comm]
  | cons c cs ih =>
    rw [lowerAfter, lowerBetween_append_eq_iff hxs, List.forall₂_cons_left_iff]
    constructor
    · rintro ⟨x, xs', hform, hrest, rfl⟩
      exact ⟨x, xs', hform, (ih (List.forall_mem_cons.1 hxs).2).1 hrest, rfl⟩
    · rintro ⟨x, xs', hform, hrest, rfl⟩
      exact ⟨x, xs', hform, (ih (List.forall_mem_cons.1 hxs).2).2 hrest, rfl⟩

/-- The texts with a given small form, if this has letters from `a` to `z` only. -/
theorem lower_eq_iff (hxs : ∀ x ∈ xs, x.isLower = true) :
    lower cs = xs ↔ List.Forall₂ IsFormOf cs xs := lowerAfter_eq_iff hxs

end Rollout.Text
