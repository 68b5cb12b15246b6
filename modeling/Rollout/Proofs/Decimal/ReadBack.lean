import Rollout.Proofs.Decimal.Nearest

/-!
# Shortest decimals read back

The decimal that a double-precision number is written as lies in the interval of the number
(`shortest_spec`), so that it is read as the number again (`Binary64.ofDecimal_of_rounds`).
Seventeen digits suffice, since decimals with that many digits lie closer together than the numbers
do.
-/

namespace Rollout.Decimal

open Binary64

variable {m : Nat} {e k : Int}

/-! ## Comparisons -/

/-- Both sides of a comparison are made whole by one factor. -/
theorem scale_spec (a : Nat) (e : Int) (b : Nat) (k : Int) :
    ∃ c : ℚ, 0 < c ∧ ((scale a e b k).1 : ℚ) = a * 2 ^ e * c ∧
      ((scale a e b k).2 : ℚ) = b * 10 ^ k * c := by
  have hsplit : ∀ (x : ℚ) (i : Int), x ≠ 0 → (x ^ i.toNat : ℚ) = x ^ i * x ^ (-i).toNat := by
    intro x i hx
    rw [← zpow_natCast, ← zpow_natCast, ← zpow_add₀ hx]
    congr 1
    omega
  refine ⟨2 ^ (-e).toNat * 10 ^ (-k).toNat, by positivity, ?_, ?_⟩
  · change ((a * 2 ^ e.toNat * 10 ^ (-k).toNat : Nat) : ℚ) = _
    push_cast
    rw [hsplit 2 e (by norm_num)]
    ring
  · change ((b * 2 ^ (-e).toNat * 10 ^ k.toNat : Nat) : ℚ) = _
    push_cast
    rw [hsplit 10 k (by norm_num)]
    ring

/-- The scaled integers are in the order of the numbers they stand for. -/
theorem scale_le_iff {a b : Nat} :
    (scale a e b k).1 ≤ (scale a e b k).2 ↔ (a : ℚ) * 2 ^ e ≤ b * 10 ^ k := by
  obtain ⟨c, hc, h₁, h₂⟩ := scale_spec a e b k
  rw [← Nat.cast_le (α := ℚ), h₁, h₂, mul_le_mul_iff_of_pos_right hc]

/-- The same with the decimal on the left. -/
theorem le_scale_iff {a b : Nat} :
    (scale a e b k).2 ≤ (scale a e b k).1 ↔ (b : ℚ) * 10 ^ k ≤ a * 2 ^ e := by
  obtain ⟨c, hc, h₁, h₂⟩ := scale_spec a e b k
  rw [← Nat.cast_le (α := ℚ), h₁, h₂, mul_le_mul_iff_of_pos_right hc]

/-- The same for the strict order. -/
theorem scale_lt_iff {a b : Nat} :
    (scale a e b k).1 < (scale a e b k).2 ↔ (a : ℚ) * 2 ^ e < b * 10 ^ k := by
  rw [← not_le, ← not_le, le_scale_iff]

/-- The same for the strict order with the decimal on the left. -/
theorem lt_scale_iff {a b : Nat} :
    (scale a e b k).2 < (scale a e b k).1 ↔ (b : ℚ) * 10 ^ k < a * 2 ^ e := by
  rw [← not_le, ← not_le, scale_le_iff]

/-! ## Decimal exponents -/

/-- How the powers of two lie between the powers of ten. -/
theorem powers_of_two : ∀ l < 1100,
    10 ^ (l * 30103 / 100000) ≤ 10 * 2 ^ l ∧ 2 ^ (l + 1) ≤ 10 ^ (l * 30103 / 100000 + 2) ∧
      2 ^ l ≤ 10 ^ ((l * 30103 + 99999) / 100000 + 1) ∧
      2 * 10 ^ ((l * 30103 + 99999) / 100000) ≤ 100 * 2 ^ l := by
  decide +kernel

/-- The same for powers with exponents of either sign. -/
theorem powers_of_two_bounds {l : Int} (h₁ : -1100 < l) (h₂ : l < 1100) :
    (10 : ℚ) ^ (l * 30103 / 100000 - 1) ≤ 2 ^ l ∧
      (2 : ℚ) ^ (l + 1) ≤ 10 ^ (l * 30103 / 100000 + 2) := by
  rw [zpow_sub_one₀ (by norm_num), zpow_add_one₀ (by norm_num), zpow_add₀ (by norm_num),
    ← div_eq_mul_inv, div_le_iff₀ (by norm_num), show ((10 : ℚ) ^ (2 : ℤ)) = 100 by norm_num]
  rcases le_or_gt 0 l with hl | hl
  · obtain ⟨n, rfl⟩ := Int.eq_ofNat_of_zero_le hl
    obtain ⟨hlow, hhigh, -, -⟩ := powers_of_two n (by omega)
    have hguess : (n : Int) * 30103 / 100000 = ((n * 30103 / 100000 : Nat) : Int) := by omega
    have hlow' : (10 : ℚ) ^ (n * 30103 / 100000) ≤ 10 * 2 ^ n := by exact_mod_cast hlow
    have hhigh' : (2 : ℚ) ^ (n + 1) ≤ 10 ^ (n * 30103 / 100000 + 2) := by exact_mod_cast hhigh
    rw [pow_succ, pow_add] at hhigh'
    rw [hguess, zpow_natCast, zpow_natCast]
    constructor
    · linarith
    · linarith
  · obtain ⟨n, hn⟩ := Int.eq_ofNat_of_zero_le (by omega : 0 ≤ -l)
    obtain rfl : l = -n := by omega
    obtain ⟨-, -, hlow, hhigh⟩ := powers_of_two n (by omega)
    have hguess : -(n : Int) * 30103 / 100000 = -((n * 30103 + 99999) / 100000 : Nat) := by omega
    generalize (n * 30103 + 99999) / 100000 = c at *
    have hlow' : (2 : ℚ) ^ n ≤ 10 ^ (c + 1) := by exact_mod_cast hlow
    have hhigh' : (2 : ℚ) * 10 ^ c ≤ 100 * 2 ^ n := by exact_mod_cast hhigh
    rw [pow_succ] at hlow'
    rw [hguess, zpow_neg, zpow_neg, zpow_natCast, zpow_natCast]
    have htwo : (0 : ℚ) < 2 ^ n := by positivity
    have hten : (0 : ℚ) < 10 ^ c := by positivity
    constructor
    · rw [inv_le_iff_one_le_mul₀ hten]
      field_simp
      linarith
    · rw [inv_mul_le_iff₀ htwo]
      field_simp
      linarith

/-- The decimal exponent of a number is that of the greatest power of ten not above it. -/
theorem decimalExponent_spec {a : Nat} (ha : 0 < a) (h₁ : -1100 < (Nat.log2 a : Int) + e)
    (h₂ : (Nat.log2 a : Int) + e < 1100) :
    (10 : ℚ) ^ decimalExponent a e ≤ a * 2 ^ e ∧
      (a : ℚ) * 2 ^ e < 10 ^ (decimalExponent a e + 1) := by
  obtain ⟨hlow, hhigh⟩ := powers_of_two_bounds h₁ h₂
  have hlog₁ : (2 : ℚ) ^ Nat.log2 a ≤ a := by exact_mod_cast Nat.log2_self_le ha.ne'
  have hlog₂ : (a : ℚ) < 2 ^ (Nat.log2 a + 1) := by exact_mod_cast Nat.lt_log2_self
  have hunit : (0 : ℚ) < 2 ^ e := by positivity
  have hbelow : (2 : ℚ) ^ ((Nat.log2 a : Int) + e) ≤ a * 2 ^ e := by
    rw [zpow_add₀ (by norm_num), zpow_natCast]
    nlinarith
  have habove : (a : ℚ) * 2 ^ e < 2 ^ ((Nat.log2 a : Int) + e + 1) := by
    rw [zpow_add_one₀ (by norm_num), zpow_add₀ (by norm_num), zpow_natCast]
    rw [pow_succ] at hlog₂
    nlinarith
  rw [decimalExponent]
  generalize ((Nat.log2 a : Int) + e) * 30103 / 100000 = guess at *
  have hnext : ((scale a e 1 (guess + 1)).2 ≤ (scale a e 1 (guess + 1)).1) ↔
      (10 : ℚ) ^ (guess + 1) ≤ a * 2 ^ e := by rw [le_scale_iff, Nat.cast_one, one_mul]
  have hguess : ((scale a e 1 guess).1 < (scale a e 1 guess).2) ↔
      (a : ℚ) * 2 ^ e < 10 ^ guess := by rw [scale_lt_iff, Nat.cast_one, one_mul]
  simp only [hnext, hguess]
  split_ifs with hup hdown
  · refine ⟨hup, ?_⟩
    rw [add_assoc]
    exact habove.trans_le hhigh
  · refine ⟨hlow.trans hbelow, ?_⟩
    rw [sub_add_cancel]
    exact hdown
  · exact ⟨not_lt.1 hdown, not_le.1 hup⟩

/-! ## Grids -/

/-- Whether a decimal of the grid `10 ^ k` lies in the interval of a number. -/
def inInterval (m : Nat) (e k : Int) (d : Nat) : Bool :=
  let low := scale (interval m e).1 (e - 2) d k
  let high := scale (interval m e).2.2 (e - 2) d k
  if m % 2 = 0 then low.1 ≤ low.2 && high.2 ≤ high.1 else low.1 < low.2 && high.2 < high.1

/-- The decimal of the grid below a number, or just at it. -/
def gridBelow (m : Nat) (e k : Int) : Nat :=
  (scale (4 * m) (e - 2) 1 k).1 / (scale (4 * m) (e - 2) 1 k).2

/-- The decimal that is taken is one of the two next to the number. -/
theorem onGrid_eq : onGrid m e k =
    match inInterval m e k (gridBelow m e k), inInterval m e k (gridBelow m e k + 1) with
    | false, false => none
    | true, false => some (gridBelow m e k)
    | false, true => some (gridBelow m e k + 1)
    | true, true =>
      let twice := 2 * ((scale (4 * m) (e - 2) 1 k).1 % (scale (4 * m) (e - 2) 1 k).2)
      if twice < (scale (4 * m) (e - 2) 1 k).2 then some (gridBelow m e k)
      else if (scale (4 * m) (e - 2) 1 k).2 < twice then some (gridBelow m e k + 1)
      else some (gridBelow m e k + gridBelow m e k % 2) := rfl

/-- A decimal lies in the interval exactly if it rounds to the number. -/
theorem inInterval_iff {d : Nat} : inInterval m e k d = true ↔ Rounds m e (d * 10 ^ k) := by
  rw [inInterval, Rounds]
  split_ifs with heven
  · rw [Bool.and_eq_true, decide_eq_true_iff, decide_eq_true_iff, scale_le_iff, le_scale_iff]
    constructor
    · rintro ⟨h₁, h₂⟩
      exact ⟨h₁, h₂, fun hodd => by omega⟩
    · rintro ⟨h₁, h₂, -⟩
      exact ⟨h₁, h₂⟩
  · rw [Bool.and_eq_true, decide_eq_true_iff, decide_eq_true_iff, scale_lt_iff, lt_scale_iff]
    constructor
    · rintro ⟨h₁, h₂⟩
      exact ⟨h₁.le, h₂.le, fun _ => ⟨h₁, h₂⟩⟩
    · rintro ⟨-, -, h⟩
      exact h (by omega)

/-- A decimal of the grid is taken only if it lies in the interval of the number. -/
theorem rounds_of_onGrid {d : Nat} (h : onGrid m e k = some d) :
    Rounds m e (d * 10 ^ k) ∧ d ≤ gridBelow m e k + 1 := by
  rw [onGrid_eq] at h
  generalize hdown : gridBelow m e k = down at h ⊢
  split at h
  · cases h
  · cases h
    exact ⟨inInterval_iff.1 ‹_›, by omega⟩
  · cases h
    exact ⟨inInterval_iff.1 ‹_›, le_rfl⟩
  · rename_i h₁ h₂
    dsimp only at h
    have hboth : d = down ∨ d = down + 1 := by
      split_ifs at h
      · left; injection h with h; exact h.symm
      · right; injection h with h; exact h.symm
      · injection h with h
        omega
    rcases hboth with rfl | rfl
    · exact ⟨inInterval_iff.1 h₁, by omega⟩
    · exact ⟨inInterval_iff.1 h₂, le_rfl⟩

/-- The grid around a number. -/
theorem gridBelow_spec : gridBelow m e k * (10 : ℚ) ^ k ≤ m * 2 ^ e ∧
    m * 2 ^ e < (gridBelow m e k + 1 : ℚ) * 10 ^ k := by
  obtain ⟨c, hc, h₁, h₂⟩ := scale_spec (4 * m) (e - 2) 1 k
  have hten : (0 : ℚ) < 10 ^ k := by positivity
  have hunit : 0 < (scale (4 * m) (e - 2) 1 k).2 := by
    have : (0 : ℚ) < (scale (4 * m) (e - 2) 1 k).2 := by
      rw [h₂, Nat.cast_one, one_mul]
      positivity
    exact_mod_cast this
  rw [gridBelow]
  generalize scale (4 * m) (e - 2) 1 k = vu at *
  obtain ⟨v, u⟩ := vu
  dsimp only at *
  have hlow : v / u * u ≤ v := Nat.div_mul_le_self v u
  have hhigh : v < (v / u + 1) * u := by
    rw [mul_comm]
    exact Nat.lt_mul_div_succ v hunit
  have hlow' : ((v / u : Nat) : ℚ) * u ≤ v := by exact_mod_cast hlow
  have hhigh' : (v : ℚ) < ((v / u : Nat) + 1) * u := by exact_mod_cast hhigh
  rw [h₁, h₂] at hlow' hhigh'
  push_cast at hlow' hhigh'
  rw [two_zpow_eq e]
  constructor
  · refine le_of_mul_le_mul_right ?_ hc
    linarith
  · refine lt_of_mul_lt_mul_right ?_ hc.le
    linarith

/-- A grid has a decimal in the interval of a number if one of the two next to the number lies
there. -/
theorem exists_onGrid_of_inInterval (h : inInterval m e k (gridBelow m e k) = true ∨
    inInterval m e k (gridBelow m e k + 1) = true) : ∃ d, onGrid m e k = some d := by
  rw [← Option.isSome_iff_exists, onGrid_eq]
  split
  · rename_i hdown hup
    rw [hdown, hup] at h
    simp at h
  · rfl
  · rfl
  · dsimp only
    split_ifs
    · rfl
    · rfl
    · rfl

/-- The grid is finer than the interval of a number is wide, and the number itself is not the lower
end of its interval. -/
theorem interval_wide (hm : IsNormal m e) (hk : (10 : ℚ) ^ (k + 16) ≤ m * 2 ^ e) :
    (interval m e).1 * (2 : ℚ) ^ (e - 2) + 10 ^ k < (interval m e).2.2 * 2 ^ (e - 2) ∧
      (interval m e).1 * (2 : ℚ) ^ (e - 2) < m * 2 ^ e := by
  have hunit : (0 : ℚ) < 2 ^ (e - 2) := by positivity
  have hlt : (m : ℚ) + 1 ≤ 2 ^ 53 := by exact_mod_cast hm.lt_bound
  rw [zpow_add₀ (by norm_num), show ((10 : ℚ) ^ (16 : ℤ)) = 10 ^ 16 by norm_num,
    two_zpow_eq e] at hk
  rw [interval_high, two_zpow_eq e]
  rcases interval_low hm with hlow | ⟨hlow, hedge, -⟩
  · rw [hlow]
    constructor
    · nlinarith
    · nlinarith
  · have hm' : (m : ℚ) = 2 ^ 52 := by exact_mod_cast hedge
    rw [hlow]
    rw [hm'] at hk
    constructor
    · nlinarith
    · nlinarith

/-- There is a decimal on every grid that is finer than the numbers are. -/
theorem exists_onGrid (hm : IsNormal m e) (hk : (10 : ℚ) ^ (k + 16) ≤ m * 2 ^ e) :
    ∃ d, onGrid m e k = some d := by
  obtain ⟨hbelow, habove⟩ := gridBelow_spec (m := m) (e := e) (k := k)
  obtain ⟨hwide, hinside⟩ := interval_wide hm hk
  have hunit : (0 : ℚ) < 2 ^ (e - 2) := by positivity
  have hin : ∀ d : Nat, (interval m e).1 * (2 : ℚ) ^ (e - 2) < d * 10 ^ k →
      d * 10 ^ k < (interval m e).2.2 * (2 : ℚ) ^ (e - 2) → inInterval m e k d = true :=
    fun d h₁ h₂ => inInterval_iff.2 ⟨h₁.le, h₂.le, fun _ => ⟨h₁, h₂⟩⟩
  apply exists_onGrid_of_inInterval
  rcases lt_or_ge ((interval m e).1 * (2 : ℚ) ^ (e - 2)) (gridBelow m e k * 10 ^ k) with h | h
  · left
    apply hin _ h
    rw [interval_high]
    rw [two_zpow_eq e] at hbelow
    linarith
  · right
    apply hin
    · push_cast
      linarith
    · push_cast
      linarith

/-! ## Shortest decimals -/

/-- The first grid that has a decimal of the interval gives one. -/
theorem firstGrid_spec {top : Int} {fuel n : Nat}
    (h : ∃ d, onGrid m e (top - (n + fuel : Nat)) = some d) :
    onGrid m e (firstGrid m e top fuel n).exponent =
        some (firstGrid m e top fuel n).coefficient ∧
      top - (n + fuel : Nat) ≤ (firstGrid m e top fuel n).exponent := by
  induction fuel generalizing n with
  | zero =>
    obtain ⟨d, hd⟩ := h
    rw [Nat.add_zero] at hd ⊢
    rw [firstGrid]
    dsimp only
    rw [hd]
    exact ⟨rfl, le_rfl⟩
  | succ fuel ih =>
    rw [firstGrid]
    cases hn : onGrid m e (top - n) with
    | some d => exact ⟨hn, by dsimp only; omega⟩
    | none =>
      have hmove : n + (fuel + 1) = n + 1 + fuel := by omega
      rw [hmove] at h ⊢
      exact ih h

/-- Zeros at the end of a coefficient do not change the decimal. -/
theorem strip_spec (fuel : Nat) (d : Digits) :
    ((d.strip fuel).coefficient : ℚ) * 10 ^ (d.strip fuel).exponent =
        d.coefficient * 10 ^ d.exponent ∧
      (d.strip fuel).coefficient ≤ d.coefficient := by
  induction fuel generalizing d with
  | zero => exact ⟨rfl, le_rfl⟩
  | succ fuel ih =>
    rw [Digits.strip]
    split_ifs with hzero
    · obtain ⟨hvalue, hle⟩ := ih ⟨d.coefficient / 10, d.exponent + 1⟩
      dsimp only at hvalue hle
      refine ⟨?_, by omega⟩
      have hten : d.coefficient = d.coefficient / 10 * 10 := by omega
      have hcast : (d.coefficient : ℚ) = (d.coefficient / 10 : Nat) * 10 := by exact_mod_cast hten
      rw [hvalue, hcast, zpow_add_one₀ (by norm_num)]
      ring
    · exact ⟨rfl, le_rfl⟩

/-- The shortest decimal of a number lies in the interval of the number, and it has not more than
seventeen digits. -/
theorem shortest_spec (hm : IsNormal m e) :
    Rounds m e ((shortest m e).coefficient * 10 ^ (shortest m e).exponent) ∧
      (shortest m e).coefficient ≤ 10 ^ 17 := by
  have hlog : Nat.log2 m < 53 := (Nat.log2_lt hm.pos.ne').2 hm.lt_bound
  have hmin : -1074 ≤ e := hm.min_le
  have hmax : e ≤ 971 := hm.le_max
  obtain ⟨hlow, hhigh⟩ := decimalExponent_spec (e := e) hm.pos (by omega) (by omega)
  rw [shortest, if_neg hm.pos.ne']
  generalize decimalExponent m e = top at *
  have hexists : ∃ d, onGrid m e (top - (0 + 16 : Nat)) = some d := by
    apply exists_onGrid hm
    convert hlow using 2
    push_cast
    ring
  obtain ⟨hgrid, hexponent⟩ := firstGrid_spec hexists
  generalize firstGrid m e top 16 0 = d at *
  obtain ⟨hrounds, hle⟩ := rounds_of_onGrid hgrid
  obtain ⟨hvalue, hcoefficient⟩ := strip_spec 20 d
  refine ⟨by rwa [hvalue], hcoefficient.trans ?_⟩
  -- a decimal with so few digits after its first one
  have hten : (0 : ℚ) < 10 ^ d.exponent := by positivity
  have hbelow := (gridBelow_spec (m := m) (e := e) (k := d.exponent)).1
  have hspan : (10 : ℚ) ^ (top + 1) ≤ 10 ^ 17 * 10 ^ d.exponent := by
    rw [← zpow_natCast, ← zpow_add₀ (by norm_num)]
    apply zpow_le_zpow_right₀ (by norm_num)
    push_cast at hexponent ⊢
    omega
  have hlt : (gridBelow m e d.exponent : ℚ) < 10 ^ 17 := by
    refine lt_of_mul_lt_mul_right ?_ hten.le
    linarith
  have : gridBelow m e d.exponent < 10 ^ 17 := by exact_mod_cast hlt
  omega

end Rollout.Decimal
