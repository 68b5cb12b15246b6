import Rollout.Bytes
import Rollout.Text.Percent

/-!
# Percent-encoded texts

Every text can be read back from its encoded form (`decode_encode`), and that form is made of
letters, digits, `-_.~` and percent signs alone (`isSent_of_mem_encode`), so that no character that
separates the parts of a path or a query is in it.
-/

namespace Rollout.Text.Percent

/-- A character that may stand in an encoded text. -/
def IsSent (c : Char) : Prop := c.isAlphanum = true ∨ c ∈ ['-', '_', '.', '~', '%']

instance (c : Char) : Decidable (IsSent c) :=
  inferInstanceAs (Decidable (c.isAlphanum = true ∨ c ∈ ['-', '_', '.', '~', '%']))

/-- The octets of a text are read back as the text. -/
theorem decode_encode (s : String) : decode (encode s) = some s := by
  unfold decode encode
  rw [String.toList_ofList, decodeOctets_flatMap]
  exact fromUTF8?_toUTF8 s

/-- A plain octet can be sent as it is. -/
theorem isSent_of_isPlain {b : UInt8} (h : isPlain b = true) : IsSent (Char.ofNat b.toNat) := by
  have table : ∀ n : Fin 256, isPlain (UInt8.ofNat n.val) = true →
      (Char.ofNat n.val).isAlphanum = true ∨ Char.ofNat n.val ∈ ['-', '_', '.', '~', '%'] := by
    decide +kernel
  have hb := table ⟨b.toNat, b.toNat_lt⟩
  rw [UInt8.ofNat_toNat] at hb
  exact hb h

/-- The digits of an encoded octet can be sent. -/
theorem isSent_hexDigit {n : Nat} (h : n < 16) : IsSent (hexDigit n) := by
  have table : ∀ n : Fin 16, (hexDigit n.val).isAlphanum = true := by decide
  exact .inl (table ⟨n, h⟩)

/-- All characters that an octet is encoded as can be sent. -/
theorem isSent_of_mem_encodeOctet {b : UInt8} {c : Char} (h : c ∈ encodeOctet b) : IsSent c := by
  have hb : b.toNat < 256 := b.toNat_lt
  unfold encodeOctet at h
  split at h
  · next hplain =>
    obtain rfl := List.mem_singleton.1 h
    exact isSent_of_isPlain hplain
  · simp only [escape, List.mem_cons, List.not_mem_nil, or_false] at h
    rcases h with rfl | rfl | rfl
    · exact .inr (by decide)
    · exact isSent_hexDigit (by omega)
    · exact isSent_hexDigit (by omega)

/-- All characters of an encoded text can be sent. -/
theorem isSent_of_mem_encode {s : String} {c : Char} (h : c ∈ (encode s).toList) : IsSent c := by
  unfold encode at h
  rw [String.toList_ofList] at h
  obtain ⟨b, -, hc⟩ := List.mem_flatMap.1 h
  exact isSent_of_mem_encodeOctet hc

/-- A separator that cannot be sent is in no encoded text. -/
theorem notMem_encode {sep : Char} (h : ¬IsSent sep) (s : String) : sep ∉ (encode s).toList :=
  fun hmem => h (isSent_of_mem_encode hmem)

end Rollout.Text.Percent
