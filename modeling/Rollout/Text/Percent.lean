/-!
# Percent-encoding

A text is sent inside a path or a query as its octets: letters, digits and `-_.~` stand for
themselves, every other octet is written as a percent sign and two upper-case hexadecimal digits.
`decodeOctets` reads this form back.
-/

namespace Rollout.Text.Percent

/-- An octet that stands for itself: an ASCII letter or digit, or one of `-_.~`. -/
def isPlain (b : UInt8) : Bool :=
  let n := b.toNat
  (48 ≤ n && n ≤ 57) || (65 ≤ n && n ≤ 90) || (97 ≤ n && n ≤ 122) ||
    n == 45 || n == 95 || n == 46 || n == 126

/-- The upper-case hexadecimal digit of a number below sixteen. -/
def hexDigit (n : Nat) : Char := Char.ofNat (if n < 10 then 48 + n else 55 + n)

/-- The number that a hexadecimal digit of either case stands for. -/
def hexValue (c : Char) : Option Nat :=
  let n := c.toNat
  if 48 ≤ n ∧ n ≤ 57 then some (n - 48)
  else if 65 ≤ n ∧ n ≤ 70 then some (n - 55)
  else if 97 ≤ n ∧ n ≤ 102 then some (n - 87)
  else none

/-- A percent sign and two digits. -/
def escape (b : UInt8) : List Char := ['%', hexDigit (b.toNat / 16), hexDigit (b.toNat % 16)]

/-- One octet as it is sent. -/
def encodeOctet (b : UInt8) : List Char :=
  if isPlain b then [Char.ofNat b.toNat] else escape b

/-- The octets of a text. -/
def octets (s : String) : List UInt8 := s.toUTF8.data.toList

/-- A text as it is sent. -/
def encode (s : String) : String := .ofList ((octets s).flatMap encodeOctet)

/-- The octets that stand in an encoded text; characters above ASCII and broken escapes have
none. -/
def decodeOctets : List Char → Option (List UInt8)
  | [] => some []
  | '%' :: h :: l :: cs => do
    let high ← hexValue h
    let low ← hexValue l
    let rest ← decodeOctets cs
    return UInt8.ofNat (16 * high + low) :: rest
  | c :: cs =>
    if c = '%' ∨ 128 ≤ c.toNat then none
    else (decodeOctets cs).map (UInt8.ofNat c.toNat :: ·)

/-- The text that an encoded text stands for. -/
def decode (s : String) : Option String := do
  let bytes ← decodeOctets s.toList
  String.fromUTF8? ⟨bytes.toArray⟩

/-- Every octet's written form reads back, whatever follows it. -/
theorem decodeOctets_encodeOctet (b : UInt8) (cs : List Char) :
    decodeOctets (encodeOctet b ++ cs) = (decodeOctets cs).map (b :: ·) := by
  have table : ∀ n : Fin 256,
      (isPlain (UInt8.ofNat n.val) = true →
        Char.ofNat n.val ≠ '%' ∧ (Char.ofNat n.val).toNat < 128) ∧
      hexValue (hexDigit (n.val / 16)) = some (n.val / 16) ∧
      hexValue (hexDigit (n.val % 16)) = some (n.val % 16) ∧
      UInt8.ofNat (Char.ofNat n.val).toNat = UInt8.ofNat n.val := by decide +kernel
  obtain ⟨hp, hh, hl, hc⟩ := table ⟨b.toNat, b.toNat_lt⟩
  simp only [UInt8.ofNat_toNat] at hp hc
  unfold encodeOctet
  split
  · rename_i h
    obtain ⟨h1, h2⟩ := hp h
    rw [List.singleton_append, decodeOctets]
    · rw [if_neg (by simp [h1]; omega), hc]
    · intro _ _ _ heq; exact absurd heq h1
  · have hb : 16 * (b.toNat / 16) + b.toNat % 16 = b.toNat := by omega
    simp only [escape, List.cons_append, List.nil_append, decodeOctets, hh, hl, bind, Option.bind,
      hb, UInt8.ofNat_toNat, pure]
    cases decodeOctets cs <;> rfl

/-- Decoding gives back the octets that were encoded. -/
theorem decodeOctets_flatMap (bs : List UInt8) :
    decodeOctets (bs.flatMap encodeOctet) = some bs := by
  induction bs with
  | nil => rfl
  | cons b bs ih => rw [List.flatMap_cons, decodeOctets_encodeOctet, ih]; rfl

end Rollout.Text.Percent
