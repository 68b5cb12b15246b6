/-!
# Base 64

Octets written three at a time as four characters of the alphabet `A`–`Z`, `a`–`z`, `0`–`9`, `+`,
`/`, the last group filled up with `=`.
-/

namespace Rollout.Text.Base64

/-- The character for a number below sixty-four. -/
def digit (n : Nat) : Char :=
  Char.ofNat <|
    if n < 26 then 65 + n
    else if n < 52 then 71 + n
    else if n < 62 then n - 4
    else if n = 62 then 43
    else 47

/-- The written form of some octets. -/
def encode : List UInt8 → List Char
  | [] => []
  | [a] =>
    let n := a.toNat * 65536
    [digit (n / 262144), digit (n / 4096 % 64), '=', '=']
  | [a, b] =>
    let n := a.toNat * 65536 + b.toNat * 256
    [digit (n / 262144), digit (n / 4096 % 64), digit (n / 64 % 64), '=']
  | a :: b :: c :: rest =>
    let n := a.toNat * 65536 + b.toNat * 256 + c.toNat
    digit (n / 262144) :: digit (n / 4096 % 64) :: digit (n / 64 % 64) :: digit (n % 64) ::
      encode rest

end Rollout.Text.Base64
