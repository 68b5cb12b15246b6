import Rollout.Decimal.Binary64

/-!
# Shortest decimals

The fewest decimal digits that read back as a given double-precision number. The numbers that
round to `m · 2 ^ e` form an interval, with its ends when `m` is even. On the grid of decimals with
one digit, then two, and so on, the two neighbours of the exact value are tried; of two that lie in
the interval the nearer is taken, and of two equally near the even one.
-/

namespace Rollout.Decimal

/-- The decimal `coefficient · 10 ^ exponent`. -/
structure Digits where
  coefficient : Nat
  exponent : Int
deriving DecidableEq, Repr

namespace Digits

/-- The same decimal without zeros at the end of its coefficient. -/
def strip (fuel : Nat) (d : Digits) : Digits :=
  match fuel with
  | 0 => d
  | fuel + 1 =>
    if d.coefficient ≠ 0 ∧ d.coefficient % 10 = 0 then
      strip fuel ⟨d.coefficient / 10, d.exponent + 1⟩
    else d

end Digits

/-- The rounding interval of `m · 2 ^ e`, in units of `2 ^ (e - 2)`: its lower end, the number, its
upper end. Below the least significand of an exponent the numbers lie twice as close. -/
def interval (m : Nat) (e : Int) : Nat × Nat × Nat :=
  let below := if m = Binary64.significandBound / 2 ∧ Binary64.minExponent < e then 1 else 2
  (4 * m - below, 4 * m, 4 * m + 2)

/-- The comparison of `a · 2 ^ e` with `b · 10 ^ k`, both sides made whole. -/
def scale (a : Nat) (e : Int) (b : Nat) (k : Int) : Nat × Nat :=
  (a * Nat.pow 2 e.toNat * Nat.pow 10 (-k).toNat, b * Nat.pow 2 (-e).toNat * Nat.pow 10 k.toNat)

/-- The decimal exponent of `a · 2 ^ e`: the greatest `k` with `10 ^ k` not above it. -/
def decimalExponent (a : Nat) (e : Int) : Int :=
  let guess : Int := ((Nat.log2 a : Int) + e) * 30103 / 100000
  let aboveNext := let (x, y) := scale a e 1 (guess + 1); y ≤ x
  let belowGuess := let (x, y) := scale a e 1 guess; x < y
  if aboveNext then guess + 1 else if belowGuess then guess - 1 else guess

/-- The decimal of the grid `10 ^ k` to take for `m · 2 ^ e`, if one of the grid reads back. -/
def onGrid (m : Nat) (e : Int) (k : Int) : Option Nat :=
  let (low, exact, high) := interval m e
  let q := e - 2
  let inside (d : Nat) : Bool :=
    let (l, x) := scale low q d k
    let (h, y) := scale high q d k
    if m % 2 = 0 then l ≤ x && y ≤ h else l < x && y < h
  let (v, unit) := scale exact q 1 k
  let down := v / unit
  let up := down + 1
  match inside down, inside up with
  | false, false => none
  | true, false => some down
  | false, true => some up
  | true, true =>
    let twice := 2 * (v % unit)
    if twice < unit then some down
    else if unit < twice then some up
    else some (down + down % 2)

/-- The first grid, from the given number of digits on, with a decimal that reads back. -/
def firstGrid (m : Nat) (e top : Int) : Nat → Nat → Digits
  | 0, n => ⟨(onGrid m e (top - n)).getD 0, top - n⟩
  | fuel + 1, n =>
    match onGrid m e (top - n) with
    | some d => ⟨d, top - n⟩
    | none => firstGrid m e top fuel (n + 1)

/-- The shortest decimal of `m · 2 ^ e`; seventeen digits always suffice. -/
def shortest (m : Nat) (e : Int) : Digits :=
  if m = 0 then ⟨0, 0⟩
  else (firstGrid m e (decimalExponent m e) 16 0).strip 20

end Rollout.Decimal
