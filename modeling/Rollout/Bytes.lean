/-!
# Bytes

Whether two byte strings are equal is decided by one and the same instance throughout the library.
A text can be read back from its octets.
-/

namespace Rollout

instance decidableEqByteArray : DecidableEq ByteArray := ByteArray.instDecidableEq

/-- The octets of a text are read as the text. -/
theorem fromUTF8?_toUTF8 (s : String) : String.fromUTF8? s.toUTF8 = some s := by
  have hvalid : s.toUTF8.IsValidUTF8 := s.isValidUTF8
  rw [String.fromUTF8?, dif_pos hvalid]
  rfl

/-- Octets that can be read as a text are its octets. -/
theorem fromUTF8?_eq_some_iff {bytes : ByteArray} {s : String} :
    String.fromUTF8? bytes = some s ↔ s.toUTF8 = bytes := by
  constructor
  · intro h
    unfold String.fromUTF8? at h
    split at h
    · rw [← Option.some.inj h]
      rfl
    · cases h
  · rintro rfl
    exact fromUTF8?_toUTF8 s

end Rollout
