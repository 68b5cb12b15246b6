/-!
# Double-precision numbers

A binary floating-point number of 64 bits, kept as its sign, its integer significand and its
exponent of two, and the number nearest to a given fraction. Ties go to the even significand, and
a magnitude that would need a larger exponent becomes infinite. All arithmetic is on natural
numbers.
-/

namespace Rollout.Decimal

/-- A double-precision number; `finite` stands for `± significand · 2 ^ exponent`. -/
inductive Binary64 where
  | finite (negative : Bool) (significand : Nat) (exponent : Int)
  | infinite (negative : Bool)
  | nan
deriving DecidableEq, Repr

namespace Binary64

/-- The least exponent, which the numbers near zero share. -/
def minExponent : Int := -1074

/-- The greatest exponent of a finite number. -/
def maxExponent : Int := 971

/-- Significands are below this, and only numbers with the least exponent are below half of it. -/
def significandBound : Nat := Nat.pow 2 53

def zero (negative : Bool) : Binary64 := .finite negative 0 minExponent

/-- A finite number, not an infinity or a NaN. -/
def isFinite : Binary64 → Bool
  | .finite .. => true
  | _ => false

/-- Equality of values: the two zeros are equal, and so is a NaN to itself. -/
def sameValue : Binary64 → Binary64 → Bool
  | .finite s m e, .finite s' m' e' => (m == 0 && m' == 0) || (s == s' && m == m' && e == e')
  | .infinite s, .infinite s' => s == s'
  | .nan, .nan => true
  | _, _ => false

/-- A quotient rounded to the nearest integer, a tie to the even one. -/
def roundedQuotient (num den : Nat) : Nat :=
  let q := num / den
  let twice := 2 * (num % den)
  if twice < den then q
  else if den < twice then q + 1
  else q + q % 2

/-- The quotient `num / (den · 2 ^ e)` as a fraction of natural numbers. -/
def scaled (num den : Nat) (e : Int) : Nat × Nat :=
  if e < 0 then (num * Nat.pow 2 e.natAbs, den) else (num, den * Nat.pow 2 e.natAbs)

/-- The exponent at which the significand of `num / den` has its full width. -/
def exponentOf (num den : Nat) : Int :=
  let guess : Int := (Nat.log2 num : Int) - Nat.log2 den - 52
  let (n, d) := scaled num den guess
  let exact := if n / d < significandBound / 2 then guess - 1 else guess
  max exact minExponent

/-- The number nearest to the fraction `num / den`. -/
def nearest (negative : Bool) (num den : Nat) : Binary64 :=
  if num = 0 then zero negative
  else
    let e := exponentOf num den
    let (n, d) := scaled num den e
    let m := roundedQuotient n d
    let (m, e) := if m = significandBound then (significandBound / 2, e + 1) else (m, e)
    if maxExponent < e then .infinite negative else .finite negative m e

/-- The number nearest to `digits · 10 ^ exponent`. Far outside the range of finite numbers the
answer is an infinity or a zero whatever the digits are, and no large power is formed. -/
def ofDecimal (negative : Bool) (digits : Nat) (exponent : Int) : Binary64 :=
  let magnitude : Int := exponent + (Nat.log2 digits * 30103 / 100000 : Nat)
  if digits = 0 then zero negative
  else if 320 < magnitude then .infinite negative
  else if magnitude < -340 then zero negative
  else if exponent < 0 then nearest negative digits (Nat.pow 10 exponent.natAbs)
  else nearest negative (digits * Nat.pow 10 exponent.natAbs) 1

/-- A rounded quotient is within half a unit of the quotient. -/
theorem roundedQuotient_close (num den : Nat) (h : 0 < den) :
    2 * num ≤ (2 * roundedQuotient num den + 1) * den ∧
      2 * roundedQuotient num den * den ≤ 2 * num + den := by
  have hdiv := Nat.div_add_mod num den
  have hlt := Nat.mod_lt num h
  unfold roundedQuotient
  generalize num / den = q at *
  generalize num % den = r at *
  subst hdiv
  have hq : q % 2 = 0 ∨ q % 2 = 1 := by omega
  simp only
  split
  · constructor <;> grind
  · split
    · constructor <;> grind
    · rcases hq with hq | hq <;> rw [hq] <;> constructor <;> grind

end Binary64

end Rollout.Decimal
