import Rollout.Decimal.Shortest

/-!
# Written numbers

How a double-precision number is written: its shortest decimal, laid out positionally or with an
exponent, and its texts for what is not finite. A `NumberFormat` records the choices of one format.
-/

namespace Rollout.Decimal

/-- The choices of a number format. -/
structure NumberFormat where
  /-- The point stands after this many digits at most in positional form; more digits than any
  number has mean that no exponent is ever written. -/
  mostDigits : Nat
  /-- At most one less than this many zeros follow the point in positional form. -/
  leastZeros : Nat
  infinity : String
  nan : String

/-- The decimal digits of a number. -/
def digits (n : Nat) : List Char := Nat.toDigits 10 n

/-- An integer in decimal. -/
def integer (i : Int) : List Char := if i < 0 then '-' :: digits i.natAbs else digits i.natAbs

namespace NumberFormat

/-- A decimal in this format. There is always a point or an exponent, and a digit on either side
of the point. -/
def layout (f : NumberFormat) (d : Digits) : List Char :=
  let ds := digits d.coefficient
  let point : Int := ds.length + d.exponent
  if d.coefficient = 0 then "0.0".toList
  else if 0 ≤ d.exponent ∧ point ≤ f.mostDigits then
    ds ++ List.replicate d.exponent.toNat '0' ++ ".0".toList
  else if 0 < point ∧ point ≤ f.mostDigits then
    ds.take point.toNat ++ '.' :: ds.drop point.toNat
  else if point ≤ 0 ∧ -f.leastZeros < point then
    "0.".toList ++ List.replicate (-point).toNat '0' ++ ds
  else match ds with
    | [d] => d :: 'e' :: integer (point - 1)
    | d :: ds => d :: '.' :: ds ++ 'e' :: integer (point - 1)
    | [] => []

/-- A number in this format. -/
def write (f : NumberFormat) : Binary64 → String
  | .finite negative m e =>
    let body := f.layout (shortest m e)
    .ofList (if negative then '-' :: body else body)
  | .infinite negative => if negative then "-" ++ f.infinity else f.infinity
  | .nan => f.nan

end NumberFormat

end Rollout.Decimal
