import Mathlib.Algebra.Order.Field.Power
import Mathlib.Data.Rat.Floor
import Mathlib.Tactic.FieldSimp
import Mathlib.Tactic.Linarith
import Mathlib.Tactic.Positivity
import Mathlib.Tactic.Ring
import Rollout.Decimal.Shortest

/-!
# Nearest numbers

Which fractions are read as a given double-precision number. Around every number `m · 2 ^ e` there
is an interval of fractions that are nearer to it than to any other number; its ends belong to it if
`m` is even. `nearest` takes every fraction of that interval to the number (`nearest_of_rounds`),
whatever the numerator and the denominator are.
-/

namespace Rollout.Decimal

namespace Binary64

/-- A significand and an exponent in which a finite number other than zero is kept. -/
structure IsNormal (m : Nat) (e : Int) : Prop where
  pos : 0 < m
  lt_bound : m < significandBound
  full : significandBound / 2 ≤ m ∨ e = minExponent
  min_le : minExponent ≤ e
  le_max : e ≤ maxExponent

/-- A number in the form in which the result of a computation is kept. -/
def IsProper : Binary64 → Prop
  | .finite _ m e => m = 0 ∧ e = minExponent ∨ IsNormal m e
  | _ => True

/-- The fraction lies in the interval of the number `m · 2 ^ e`. -/
def Rounds (m : Nat) (e : Int) (x : ℚ) : Prop :=
  (interval m e).1 * (2 : ℚ) ^ (e - 2) ≤ x ∧ x ≤ (interval m e).2.2 * (2 : ℚ) ^ (e - 2) ∧
    (m % 2 = 1 →
      (interval m e).1 * (2 : ℚ) ^ (e - 2) < x ∧ x < (interval m e).2.2 * (2 : ℚ) ^ (e - 2))

/-- A significand has 53 bits. -/
theorem significandBound_eq : significandBound = 2 ^ 53 := rfl

/-! ## Rounding to integers -/

/-- The integer that a quotient is rounded to: it is at most half a unit away, and it is even if it
is just that far away. -/
theorem roundedQuotient_eq {num den m : Nat} (hden : 0 < den)
    (hlow : 2 * m * den ≤ 2 * num + den) (hhigh : 2 * num ≤ 2 * m * den + den)
    (htie : m % 2 = 1 → 2 * m * den < 2 * num + den ∧ 2 * num < 2 * m * den + den) :
    roundedQuotient num den = m := by
  have hdiv : den * (num / den) + num % den = num := Nat.div_add_mod num den
  have hlt : num % den < den := Nat.mod_lt num hden
  rw [roundedQuotient]
  generalize num / den = q at *
  generalize num % den = r at *
  -- the quotient is at most one below the integer
  have hle : q ≤ m := by
    by_contra hgt
    have hmul : den * (m + 1) ≤ den * q := Nat.mul_le_mul_left den (by omega)
    have hexp : den * (m + 1) = m * den + den := by ring
    have htwo : 2 * m * den = 2 * (m * den) := by ring
    omega
  have hge : m ≤ q + 1 := by
    by_contra hgt
    have hmul : den * (q + 2) ≤ den * m := Nat.mul_le_mul_left den (by omega)
    have hexp : den * (q + 2) = den * q + 2 * den := by ring
    have htwo : 2 * m * den = 2 * (den * m) := by ring
    omega
  rcases (by omega : m = q ∨ m = q + 1) with rfl | rfl
  · have htwo : 2 * m * den = 2 * (den * m) := by ring
    split_ifs with h₁ h₂
    · rfl
    · omega
    · omega
  · have htwo : 2 * (q + 1) * den = 2 * (den * q) + 2 * den := by ring
    split_ifs with h₁ h₂
    · omega
    · rfl
    · omega

/-- The same, for the quotient as a fraction. -/
theorem roundedQuotient_of_fraction {num den m : Nat} {x : ℚ} (hden : 0 < den)
    (hx : (num : ℚ) / den = x) (hlow : (m : ℚ) - 1 / 2 ≤ x) (hhigh : x ≤ m + 1 / 2)
    (htie : m % 2 = 1 → (m : ℚ) - 1 / 2 < x ∧ x < m + 1 / 2) :
    roundedQuotient num den = m := by
  have hpos : (0 : ℚ) < den := by exact_mod_cast hden
  have hnum : (num : ℚ) = x * den := by rw [← hx]; field_simp
  apply roundedQuotient_eq hden
  · have h : (2 : ℚ) * m * den ≤ 2 * num + den := by rw [hnum]; nlinarith
    exact_mod_cast h
  · have h : (2 : ℚ) * num ≤ 2 * m * den + den := by rw [hnum]; nlinarith
    exact_mod_cast h
  · intro hodd
    obtain ⟨h₁, h₂⟩ := htie hodd
    constructor
    · have h : (2 : ℚ) * m * den < 2 * num + den := by rw [hnum]; nlinarith
      exact_mod_cast h
    · have h : (2 : ℚ) * num < 2 * m * den + den := by rw [hnum]; nlinarith
      exact_mod_cast h

/-! ## Exponents -/

/-- Scaling divides by a power of two. -/
theorem scaled_spec (num : Nat) {den : Nat} (hden : 0 < den) (e : Int) :
    0 < (scaled num den e).2 ∧
      ((scaled num den e).1 : ℚ) / (scaled num den e).2 = num / den / (2 : ℚ) ^ e := by
  rw [scaled]
  split_ifs with he
  · have habs : (e.natAbs : Int) = -e := by omega
    have hpow : ((2 : ℚ) ^ e.natAbs) = (2 : ℚ) ^ (-e) := by rw [← zpow_natCast, habs]
    refine ⟨hden, ?_⟩
    change ((num * 2 ^ e.natAbs : Nat) : ℚ) / den = _
    push_cast
    rw [hpow, zpow_neg]
    field_simp
  · have habs : (e.natAbs : Int) = e := by omega
    have hpow : ((2 : ℚ) ^ e.natAbs) = (2 : ℚ) ^ e := by rw [← zpow_natCast, habs]
    refine ⟨Nat.mul_pos hden (Nat.pow_pos (by norm_num)), ?_⟩
    change (num : ℚ) / ((den * 2 ^ e.natAbs : Nat) : ℚ) = _
    push_cast
    rw [hpow]
    field_simp

/-- A fraction that is at most half a unit away from `m` units is rounded to `m` of them. -/
theorem roundedQuotient_scaled {num den m : Nat} {e : Int} (hden : 0 < den)
    (hlow : ((m : ℚ) - 1 / 2) * 2 ^ e ≤ num / den) (hhigh : (num : ℚ) / den ≤ (m + 1 / 2) * 2 ^ e)
    (htie : m % 2 = 1 → ((m : ℚ) - 1 / 2) * 2 ^ e < num / den ∧
      (num : ℚ) / den < (m + 1 / 2) * 2 ^ e) :
    roundedQuotient (scaled num den e).1 (scaled num den e).2 = m := by
  have hunit : (0 : ℚ) < 2 ^ e := by positivity
  obtain ⟨hd, hfraction⟩ := scaled_spec num hden e
  apply roundedQuotient_of_fraction hd hfraction
  · rwa [le_div_iff₀ hunit]
  · rwa [div_le_iff₀ hunit]
  · rwa [lt_div_iff₀ hunit, div_lt_iff₀ hunit]

/-- A fraction is less than a unit away from the units that it is rounded to. -/
theorem roundedQuotient_scaled_close (num : Nat) {den : Nat} (hden : 0 < den) (e : Int) :
    ((roundedQuotient (scaled num den e).1 (scaled num den e).2 : ℚ) - 1) * 2 ^ e < num / den ∧
      (num : ℚ) / den <
        (roundedQuotient (scaled num den e).1 (scaled num den e).2 + 1) * 2 ^ e := by
  obtain ⟨hd, hfraction⟩ := scaled_spec num hden e
  obtain ⟨hclose₁, hclose₂⟩ := roundedQuotient_close (scaled num den e).1 (scaled num den e).2 hd
  generalize scaled num den e = nd at *
  obtain ⟨n, d⟩ := nd
  dsimp only at *
  generalize roundedQuotient n d = r at *
  have hd' : (0 : ℚ) < d := by exact_mod_cast hd
  have hunit : (0 : ℚ) < 2 ^ e := by positivity
  have hclose₁' : (2 : ℚ) * n ≤ (2 * r + 1) * d := by exact_mod_cast hclose₁
  have hclose₂' : (2 : ℚ) * r * d ≤ 2 * n + d := by exact_mod_cast hclose₂
  rw [← lt_div_iff₀ hunit, ← div_lt_iff₀ hunit, ← hfraction, lt_div_iff₀ hd', div_lt_iff₀ hd']
  constructor
  · linarith
  · linarith

/-- A number between two powers of two has only one exponent. -/
theorem exponent_unique {x : ℚ} {a b : Int} (ha : (2 : ℚ) ^ 52 * 2 ^ a ≤ x)
    (ha' : x < (2 : ℚ) ^ 53 * 2 ^ a) (hb : (2 : ℚ) ^ 52 * 2 ^ b ≤ x)
    (hb' : x < (2 : ℚ) ^ 53 * 2 ^ b) : a = b := by
  have hlt : ∀ {a b : Int}, (2 : ℚ) ^ 52 * 2 ^ a ≤ x → x < (2 : ℚ) ^ 53 * 2 ^ b → a < b + 1 := by
    intro a b h h'
    rw [← zpow_lt_zpow_iff_right₀ (by norm_num : (1 : ℚ) < 2), zpow_add₀ (by norm_num), zpow_one]
    nlinarith
  have := hlt ha hb'
  have := hlt hb ha'
  omega

/-- A fraction has an exponent at which all digits of a significand stand before its point, and that
is its exponent unless it is below the least one. -/
theorem exists_exponentOf {num den : Nat} (hnum : 0 < num) (hden : 0 < den) :
    ∃ k : Int, (2 : ℚ) ^ 52 * 2 ^ k ≤ num / den ∧ (num : ℚ) / den < 2 ^ 53 * 2 ^ k ∧
      exponentOf num den = max k minExponent := by
  have hnum₁ : (2 : ℚ) ^ Nat.log2 num ≤ num := by exact_mod_cast Nat.log2_self_le hnum.ne'
  have hnum₂ : (num : ℚ) < 2 ^ (Nat.log2 num + 1) := by exact_mod_cast Nat.lt_log2_self
  have hden₁ : (2 : ℚ) ^ Nat.log2 den ≤ den := by exact_mod_cast Nat.log2_self_le hden.ne'
  have hden₂ : (den : ℚ) < 2 ^ (Nat.log2 den + 1) := by exact_mod_cast Nat.lt_log2_self
  have hpos : (0 : ℚ) < den := by exact_mod_cast hden
  rw [exponentOf]
  generalize hg : (Nat.log2 num : Int) - Nat.log2 den - 52 = guess
  obtain ⟨hd, hfraction⟩ := scaled_spec num hden guess
  have hpow : (2 : ℚ) ^ guess * 2 ^ 52 * 2 ^ Nat.log2 den = 2 ^ Nat.log2 num := by
    rw [← zpow_natCast, ← zpow_natCast, ← zpow_natCast, ← zpow_add₀ (by norm_num),
      ← zpow_add₀ (by norm_num)]
    congr 1
    omega
  have htwo : (0 : ℚ) < 2 ^ guess := by positivity
  -- the guess is right or one too large
  have habove : (num : ℚ) / den < 2 ^ 53 * 2 ^ guess := by
    rw [div_lt_iff₀ hpos]
    rw [pow_succ] at hnum₂
    nlinarith
  have hbelow : (2 : ℚ) ^ 51 * 2 ^ guess < num / den := by
    rw [lt_div_iff₀ hpos]
    rw [pow_succ] at hden₂
    nlinarith
  have hfloor : ∀ n d : Nat, 0 < d → (n : ℚ) / d = num / den / 2 ^ guess →
      (n / d < significandBound / 2 ↔ (num : ℚ) / den < 2 ^ 52 * 2 ^ guess) := by
    intro n d hd hnd
    have hd' : (0 : ℚ) < d := by exact_mod_cast hd
    have hbound : significandBound / 2 = 2 ^ 52 := rfl
    rw [hbound, Nat.div_lt_iff_lt_mul hd, ← div_lt_iff₀ htwo, ← hnd, div_lt_iff₀ hd']
    exact_mod_cast Iff.rfl
  simp only
  split_ifs with hsmall
  · rw [hfloor _ _ hd hfraction] at hsmall
    have hone : (2 : ℚ) ^ guess = 2 ^ (guess - 1) * 2 := by
      rw [← zpow_add_one₀ (by norm_num), sub_add_cancel]
    rw [hone] at hbelow hsmall
    exact ⟨guess - 1, by linarith, by linarith, rfl⟩
  · rw [hfloor _ _ hd hfraction, not_lt] at hsmall
    exact ⟨guess, hsmall, habove, rfl⟩

/-! ## Intervals -/

variable {m : Nat} {e : Int} {x : ℚ}

/-- The ends of intervals are told in quarters of a unit. -/
theorem two_zpow_eq (e : Int) : (2 : ℚ) ^ e = 2 ^ (e - 2) * 4 := by
  rw [← sub_add_cancel e 2, zpow_add₀ (by norm_num), add_sub_cancel_right]
  norm_num

/-- The upper end of the interval of a number is half a unit above it. -/
theorem interval_high : ((interval m e).2.2 : ℚ) = 4 * m + 2 := by
  rw [interval]
  push_cast
  ring

/-- The lower end of the interval of a number is at most half a unit below it. -/
theorem interval_low (h : IsNormal m e) :
    ((interval m e).1 : ℚ) = 4 * m - 2 ∨
      ((interval m e).1 : ℚ) = 4 * m - 1 ∧ m = 2 ^ 52 ∧ minExponent < e := by
  have hpos := h.pos
  rw [interval]
  split_ifs with hedge
  · right
    refine ⟨?_, hedge.1, hedge.2⟩
    push_cast [show 1 ≤ 4 * m by omega]
    ring
  · left
    push_cast [show 2 ≤ 4 * m by omega]
    ring

/-- The interval of a number in units of its last digit. -/
theorem Rounds.bounds (h : Rounds m e x) (hm : IsNormal m e) :
    ((m : ℚ) - 1 / 2) * 2 ^ e ≤ x ∧ x ≤ (m + 1 / 2) * 2 ^ e ∧
      (m % 2 = 1 → ((m : ℚ) - 1 / 2) * 2 ^ e < x ∧ x < (m + 1 / 2) * 2 ^ e) := by
  obtain ⟨hlow, hhigh, hodd⟩ := h
  have hunit : (0 : ℚ) < 2 ^ (e - 2) := by positivity
  rw [interval_high] at hhigh hodd
  rw [two_zpow_eq e]
  have hstart : (4 * m - 2 : ℚ) * 2 ^ (e - 2) ≤ (interval m e).1 * 2 ^ (e - 2) := by
    rcases interval_low hm with h₁ | ⟨h₁, -, -⟩
    · rw [h₁]
    · rw [h₁]
      nlinarith
  refine ⟨by linarith, by linarith, fun h => ?_⟩
  obtain ⟨h₁, h₂⟩ := hodd h
  constructor
  · linarith
  · linarith

/-- The only numbers below which the fractions of the interval need one more digit are those with
the least significand, and there the interval is half as wide. -/
theorem Rounds.edge (h : Rounds m e x) (hm : IsNormal m e)
    (hedge : m = 2 ^ 52) (he : minExponent < e) : ((m : ℚ) - 1 / 4) * 2 ^ e ≤ x := by
  have hlow := h.1
  rcases interval_low hm with h₁ | ⟨h₁, -, -⟩
  · rw [interval, if_pos ⟨hedge, he⟩] at h₁
    have hpos : 1 ≤ 4 * m := by have := hm.pos; omega
    push_cast [hpos] at h₁
    linarith
  · rw [h₁] at hlow
    rw [two_zpow_eq e]
    linarith

/-- A fraction that rounds to a normal number is positive. -/
theorem Rounds.num_pos {num den : Nat} (h : Rounds m e (num / den)) (hm : IsNormal m e)
    (hden : 0 < den) : 0 < num := by
  have hlow := (h.bounds hm).1
  have hunit : (0 : ℚ) < 2 ^ e := by positivity
  have hone : (1 : ℚ) ≤ m := by exact_mod_cast hm.pos
  have hpos : (0 : ℚ) < num / den := by nlinarith
  rw [div_pos_iff_of_pos_right (by exact_mod_cast hden)] at hpos
  exact_mod_cast hpos

/-- The exponent of a fraction in the interval of a number is that of the number, or the number is
a power of two and the fraction is just below it. -/
theorem Rounds.exponentOf_cases {num den : Nat} (h : Rounds m e (num / den)) (hm : IsNormal m e)
    (hden : 0 < den) :
    exponentOf num den = e ∨
      exponentOf num den = e - 1 ∧ m = 2 ^ 52 ∧ minExponent < e ∧
        (num : ℚ) / den < 2 ^ 53 * 2 ^ (e - 1) := by
  obtain ⟨hlow, hhigh, -⟩ := h.bounds hm
  have hunit : (0 : ℚ) < 2 ^ e := by positivity
  have hlt : (m : ℚ) + 1 ≤ 2 ^ 53 := by exact_mod_cast hm.lt_bound
  obtain ⟨k, hk₁, hk₂, hk⟩ := exists_exponentOf (h.num_pos hm hden) hden
  have hke : k ≤ e := by
    have hupper : (2 : ℚ) ^ 52 * 2 ^ k < 2 ^ 53 * 2 ^ e := by nlinarith
    have hpow : (2 : ℚ) ^ k < 2 ^ (e + 1) := by
      rw [zpow_add_one₀ (by norm_num)]
      linarith
    have := (zpow_lt_zpow_iff_right₀ (by norm_num : (1 : ℚ) < 2)).1 hpow
    omega
  rw [hk]
  rcases (by have := hm.min_le; omega : max k minExponent = e ∨ k < e ∧ minExponent < e) with
    hexact | ⟨hbelow, hmin⟩
  · exact .inl hexact
  · right
    have hhalf : (2 : ℚ) ^ e = 2 ^ (e - 1) * 2 := by
      rw [← zpow_add_one₀ (by norm_num), sub_add_cancel]
    have hlast : (2 : ℚ) ^ k ≤ 2 ^ (e - 1) := zpow_le_zpow_right₀ (by norm_num) (by omega)
    have hfull : 2 ^ 52 ≤ m := hm.full.resolve_right hmin.ne'
    have hedge : m = 2 ^ 52 := by
      by_contra hne
      have hmore : (2 : ℚ) ^ 52 + 1 ≤ m := by exact_mod_cast (by omega : 2 ^ 52 + 1 ≤ m)
      nlinarith
    have hk' : k = e - 1 := by
      have hclose := h.edge hm hedge hmin
      rw [hedge, hhalf] at hclose
      push_cast at hclose
      apply exponent_unique hk₁ hk₂
      · nlinarith
      · nlinarith
    rw [hk'] at hk₂ ⊢
    exact ⟨max_eq_left (by omega), hedge, hmin, hk₂⟩

/-- A fraction in the interval of a number is rounded to the number. -/
theorem nearest_of_rounds {num den : Nat} (negative : Bool) (hm : IsNormal m e) (hden : 0 < den)
    (h : Rounds m e (num / den)) : nearest negative num den = .finite negative m e := by
  obtain ⟨hlow, hhigh, hodd⟩ := h.bounds hm
  have hmax : ¬maxExponent < e := not_lt.2 hm.le_max
  rw [nearest, if_neg (h.num_pos hm hden).ne']
  rcases h.exponentOf_cases hm hden with hexact | ⟨hbelow, hedge, hmin, hlt⟩
  · have hround : roundedQuotient (scaled num den e).1 (scaled num den e).2 = m :=
      roundedQuotient_scaled hden hlow hhigh hodd
    simp only [hexact, hround, if_neg hm.lt_bound.ne, if_neg hmax]
  · -- the significand overflows to the power of two
    have hround : roundedQuotient (scaled num den (e - 1)).1 (scaled num den (e - 1)).2 =
        2 ^ 53 := by
      have hhalf : (2 : ℚ) ^ e = 2 ^ (e - 1) * 2 := by
        rw [← zpow_add_one₀ (by norm_num), sub_add_cancel]
      have hunit : (0 : ℚ) < 2 ^ (e - 1) := by positivity
      have hclose := h.edge hm hedge hmin
      rw [hedge, hhalf] at hclose
      push_cast at hclose
      apply roundedQuotient_scaled hden
      · push_cast
        linarith
      · push_cast
        linarith
      · exact fun hodd => absurd hodd (by norm_num)
    have hbound : significandBound / 2 = m := hedge.symm
    simp only [hbelow, hround, significandBound_eq, if_true, sub_add_cancel, if_neg hmax]
    rw [← hbound, significandBound_eq]

/-- What a fraction is rounded to is kept in normal form. -/
theorem isNormal_of_nearest {num den : Nat} {negative sign : Bool} (hden : 0 < den)
    (h : nearest negative num den = .finite sign m e) :
    sign = negative ∧ (m = 0 ∧ e = minExponent ∨ IsNormal m e) := by
  rw [nearest] at h
  by_cases hnum : num = 0
  · rw [if_pos hnum] at h
    cases h
    exact ⟨rfl, .inl ⟨rfl, rfl⟩⟩
  rw [if_neg hnum] at h
  obtain ⟨k, hk₁, hk₂, hk⟩ := exists_exponentOf (Nat.pos_of_ne_zero hnum) hden
  obtain ⟨hclose₁, hclose₂⟩ := roundedQuotient_scaled_close num hden (max k minExponent)
  simp only [hk] at h
  generalize roundedQuotient (scaled num den (max k minExponent)).1
    (scaled num den (max k minExponent)).2 = r at *
  have hunit : (0 : ℚ) < 2 ^ max k minExponent := by positivity
  -- the rounded significand is at most one too large
  have hupper : r ≤ significandBound := by
    have hpow : (2 : ℚ) ^ k ≤ 2 ^ max k minExponent :=
      zpow_le_zpow_right₀ (by norm_num) (le_max_left _ _)
    have hr : (r : ℚ) < 2 ^ 53 + 1 := by nlinarith
    have : r < 2 ^ 53 + 1 := by exact_mod_cast hr
    rw [significandBound_eq]
    omega
  have hlower : minExponent ≤ k → 2 ^ 52 ≤ r := by
    intro hmin
    rw [max_eq_left hmin] at hunit hclose₂
    have hr : (2 : ℚ) ^ 52 < r + 1 := lt_of_mul_lt_mul_right (hk₁.trans_lt hclose₂) hunit.le
    have : 2 ^ 52 < r + 1 := by exact_mod_cast hr
    omega
  by_cases hr : r = significandBound
  · simp only [if_pos hr] at h
    split_ifs at h with hmax
    · cases h
      refine ⟨rfl, .inr ⟨by decide, by decide, .inl le_rfl, ?_, not_lt.1 hmax⟩⟩
      have := le_max_right k minExponent
      omega
  · simp only [if_neg hr] at h
    split_ifs at h with hmax
    · cases h
      refine ⟨rfl, ?_⟩
      rcases Nat.eq_zero_or_pos m with rfl | hpos
      · left
        refine ⟨rfl, max_eq_right (le_of_lt (not_le.1 fun hmin => ?_))⟩
        exact absurd (hlower hmin) (by norm_num)
      · right
        refine ⟨hpos, lt_of_le_of_ne hupper hr, ?_, le_max_right _ _, not_lt.1 hmax⟩
        rcases le_or_gt minExponent k with hmin | hmin
        · exact .inl (hlower hmin)
        · exact .inr (max_eq_right hmin.le)

/-! ## Decimals -/

/-- How many digits some bits make, nearly. -/
theorem digits_of_bits : ∀ l < 128, 10 ^ (l * 30103 / 100000) ≤ 2 ^ l ∧
    2 ^ (l + 1) ≤ 10 ^ (l * 30103 / 100000 + 2) := by
  decide +kernel

/-- The number of digits of an integer, nearly. -/
theorem digits_bounds {digits : Nat} (hne : digits ≠ 0) (hlt : digits < 2 ^ 128) :
    10 ^ (Nat.log2 digits * 30103 / 100000) ≤ digits ∧
      digits < 10 ^ (Nat.log2 digits * 30103 / 100000 + 2) := by
  obtain ⟨hbits₁, hbits₂⟩ := digits_of_bits _ ((Nat.log2_lt hne).2 hlt)
  exact ⟨hbits₁.trans (Nat.log2_self_le hne), Nat.lt_log2_self.trans_le hbits₂⟩

/-- Fractions that are rounded to a finite number are neither too large nor too small. -/
theorem Rounds.range (h : Rounds m e x) (hm : IsNormal m e) :
    (10 : ℚ) ^ (-325 : ℤ) < x ∧ x < 10 ^ (309 : ℤ) := by
  obtain ⟨hlow, hhigh, -⟩ := h.bounds hm
  have hone : (1 : ℚ) ≤ m := by exact_mod_cast hm.pos
  have hlt : (m : ℚ) + 1 ≤ 2 ^ 53 := by exact_mod_cast hm.lt_bound
  have hunit : (0 : ℚ) < 2 ^ e := by positivity
  have hmin : -1074 ≤ e := hm.min_le
  have hmax : e ≤ 971 := hm.le_max
  have hleast : ((2 ^ 1075 : Nat) : ℚ) < (10 ^ 325 : Nat) := Nat.cast_lt.2 (by decide +kernel)
  have hgreatest : ((2 ^ 1024 : Nat) : ℚ) < (10 ^ 309 : Nat) := Nat.cast_lt.2 (by decide +kernel)
  rw [Nat.cast_pow, Nat.cast_pow, ← zpow_natCast, ← zpow_natCast] at hleast hgreatest
  constructor
  · calc (10 : ℚ) ^ (-325 : ℤ) < 2 ^ (-1075 : ℤ) := by
          rw [zpow_neg, zpow_neg, inv_lt_inv₀ (by positivity) (by positivity)]
          exact hleast
      _ ≤ 2 ^ (e - 1) := zpow_le_zpow_right₀ (by norm_num) (by omega)
      _ = 1 / 2 * 2 ^ e := by rw [zpow_sub_one₀ (by norm_num)]; ring
      _ ≤ (m - 1 / 2) * 2 ^ e := by nlinarith
      _ ≤ x := hlow
  · calc x ≤ (m + 1 / 2) * 2 ^ e := hhigh
      _ ≤ 2 ^ (53 : ℤ) * 2 ^ e := by norm_num at hlt ⊢; nlinarith
      _ = 2 ^ (53 + e) := by rw [zpow_add₀ (by norm_num)]
      _ ≤ 2 ^ (1024 : ℤ) := zpow_le_zpow_right₀ (by norm_num) (by omega)
      _ < 10 ^ (309 : ℤ) := hgreatest

/-- A decimal in the interval of a number is read as the number. -/
theorem ofDecimal_of_rounds {digits : Nat} {exponent : Int} (negative : Bool) (hm : IsNormal m e)
    (hdigits : digits < 2 ^ 128) (h : Rounds m e (digits * 10 ^ exponent)) :
    ofDecimal negative digits exponent = .finite negative m e := by
  obtain ⟨hsmall, hlarge⟩ := h.range hm
  have hten : (0 : ℚ) < 10 ^ exponent := by positivity
  have hne : digits ≠ 0 := by
    rintro rfl
    rw [Nat.cast_zero, zero_mul] at hsmall
    exact absurd hsmall (not_lt.2 (by positivity))
  obtain ⟨hdigits₁, hdigits₂⟩ := digits_bounds hne hdigits
  have hpowers : ∀ {a b : Int}, (10 : ℚ) ^ a < 10 ^ b → a < b :=
    fun h => (zpow_lt_zpow_iff_right₀ (by norm_num : (1 : ℚ) < 10)).1 h
  -- the magnitude is that of the decimal, up to two digits
  have hmagnitude₁ : exponent + (Nat.log2 digits * 30103 / 100000 : Nat) < 309 := by
    apply hpowers
    have hg : (10 : ℚ) ^ (Nat.log2 digits * 30103 / 100000) ≤ digits := by exact_mod_cast hdigits₁
    rw [zpow_add₀ (by norm_num), zpow_natCast]
    nlinarith
  have hmagnitude₂ : -325 < exponent + (Nat.log2 digits * 30103 / 100000 + 2 : Nat) := by
    apply hpowers
    have hg : (digits : ℚ) < 10 ^ (Nat.log2 digits * 30103 / 100000 + 2) := by
      exact_mod_cast hdigits₂
    rw [zpow_add₀ (by norm_num), zpow_natCast]
    nlinarith
  rw [ofDecimal]
  simp only [if_neg hne]
  rw [if_neg (by omega), if_neg (by omega)]
  split_ifs with hexponent
  · have habs : (exponent.natAbs : Int) = -exponent := by omega
    apply nearest_of_rounds negative hm (Nat.pow_pos (by norm_num))
    have hvalue : (digits : ℚ) / ((10 ^ exponent.natAbs : Nat) : ℚ) = digits * 10 ^ exponent := by
      push_cast
      rw [← zpow_natCast, habs, zpow_neg, div_inv_eq_mul]
    rw [← hvalue] at h
    exact h
  · have habs : (exponent.natAbs : Int) = exponent := by omega
    apply nearest_of_rounds negative hm Nat.one_pos
    have hvalue : ((digits * 10 ^ exponent.natAbs : Nat) : ℚ) / ((1 : Nat) : ℚ) =
        digits * 10 ^ exponent := by
      push_cast
      rw [div_one, ← zpow_natCast, habs]
    rw [← hvalue] at h
    exact h

/-- What a decimal is read as is kept in normal form. -/
theorem isProper_ofDecimal {negative : Bool} {digits : Nat} {exponent : Int} :
    (ofDecimal negative digits exponent).IsProper := by
  have hnearest : ∀ {num den : Nat}, 0 < den → (nearest negative num den).IsProper := by
    intro num den hden
    cases h : nearest negative num den with
    | finite sign m e => exact (isNormal_of_nearest hden h).2
    | infinite sign => trivial
    | nan => trivial
  rw [ofDecimal]
  split_ifs
  · exact .inl ⟨rfl, rfl⟩
  · trivial
  · exact .inl ⟨rfl, rfl⟩
  · exact hnearest (Nat.pow_pos (by norm_num))
  · exact hnearest Nat.one_pos

end Binary64

end Rollout.Decimal
