import Rollout.Proofs.Decimal.ReadBack
import Rollout.Yaml.Scalar
import Rollout.Yaml.Value

/-!
# The texts of numbers

A number that a document holds is written in canonical form, and a plain scalar with this text
stands for the number again (`Scalar.ofPlain_text`): an integer for the same integer, and a
floating-point number for the same floating-point number.

Numbers that are not integers are written as decimal literals: digits, perhaps a point and further
digits, and perhaps an exponent.
-/

namespace Rollout

open Decimal

/-! ## Digits -/

namespace Yaml.Scalar

/-- A decimal digit stands for its value. -/
theorem hexValue_of_isDigit {c : Char} (h : c.isDigit = true) :
    Text.Percent.hexValue c = some (c.toNat - 48) ∧ c.toNat - 48 < 10 := by
  have hrange : 48 ≤ c.toNat ∧ c.toNat ≤ 57 := by
    simpa [Char.isDigit, Char.le_def, UInt32.le_iff_toNat_le] using h
  rw [Text.Percent.hexValue, if_pos hrange]
  exact ⟨rfl, by omega⟩

/-- Decimal digits stand for the number that they spell. -/
theorem digitsValue_of_digits {cs : List Char} (hne : cs ≠ [])
    (h : ∀ c ∈ cs, c.isDigit = true) : digitsValue 10 cs = some (Nat.ofDigitChars 10 cs 0) := by
  have hfold : ∀ n, (cs.foldlM (fun n c => do
      let d ← Text.Percent.hexValue c
      if d < 10 then some (10 * n + d) else none) n) = some (Nat.ofDigitChars 10 cs n) := by
    clear hne
    induction cs with
    | nil => intro n; rfl
    | cons c cs ih =>
      intro n
      obtain ⟨hvalue, hlt⟩ := hexValue_of_isDigit (h c List.mem_cons_self)
      rw [List.foldlM_cons, hvalue, Nat.ofDigitChars_cons]
      simp only [Option.bind_eq_bind, Option.bind_some, if_pos hlt]
      exact ih (fun c hc => h c (List.mem_cons_of_mem _ hc)) _
  rw [digitsValue, if_neg (by simpa using hne)]
  exact hfold 0

/-- A text that is not all digits stands for no number. -/
theorem digitsValue_eq_none {cs : List Char} {c : Char} (hmem : c ∈ cs)
    (h : ∀ d, Text.Percent.hexValue c = some d → 10 ≤ d) : digitsValue 10 cs = none := by
  have hfold : ∀ n, (cs.foldlM (fun n c => do
      let d ← Text.Percent.hexValue c
      if d < 10 then some (10 * n + d) else none) n) = none := by
    induction cs with
    | nil => cases hmem
    | cons x cs ih =>
      intro n
      rw [List.foldlM_cons]
      rcases List.mem_cons.1 hmem with rfl | hmem
      · cases hx : Text.Percent.hexValue c with
        | none => rfl
        | some d => simp [(h d hx).not_gt]
      · cases hx : Text.Percent.hexValue x with
        | none => rfl
        | some d =>
          by_cases hd : d < 10
          · simp only [Option.bind_eq_bind, Option.bind_some, if_pos hd]
            exact ih hmem _
          · simp [hd]
  rw [digitsValue]
  split
  · rfl
  · exact hfold 0

end Yaml.Scalar

/-! ## Decimal literals -/

/-- A number as it is written if it is not an integer: the digits before the point, those after it
if there is a point, and the exponent if there is one. -/
structure Decimal.Literal where
  whole : List Char
  fraction : Option (List Char)
  exponent : Option Int

namespace Decimal.Literal

/-- The characters of a literal. -/
def chars (l : Literal) : List Char :=
  l.whole ++ (l.fraction.elim [] ('.' :: ·) ++ l.exponent.elim [] ('e' :: integer ·))

/-- All digits of a literal. -/
def digits (l : Literal) : List Char := l.whole ++ l.fraction.getD []

/-- The decimal exponent of the last digit of a literal. -/
def scale (l : Literal) : Int := l.exponent.getD 0 - (l.fraction.getD []).length

/-- A literal has a digit before the point, and a point or an exponent. -/
structure IsDecimal (l : Literal) : Prop where
  digits : ∀ c ∈ l.digits, c.isDigit = true
  whole : l.whole ≠ []
  inexact : l.fraction.isSome = true ∨ l.exponent.isSome = true

/-- The literal spells out a decimal. -/
structure Spells (l : Literal) (d : Digits) : Prop where
  value : (Nat.ofDigitChars 10 l.digits 0 : ℚ) * 10 ^ l.scale = d.coefficient * 10 ^ d.exponent
  bounded : Nat.ofDigitChars 10 l.digits 0 < 2 ^ 128

/-- A literal whose digits are those of the coefficient spells out the decimal if its last digit
stands at the right place. -/
theorem spells_of_digits {l : Literal} {d : Digits}
    (hdigits : Nat.ofDigitChars 10 l.digits 0 = d.coefficient) (hscale : l.scale = d.exponent)
    (hle : d.coefficient ≤ 10 ^ 17) : l.Spells d where
  value := by rw [hdigits, hscale]
  bounded := by
    rw [hdigits]
    exact hle.trans_lt (by norm_num)

end Decimal.Literal

/-- The digits of a number, with zeros around them. -/
theorem isDigit_of_mem_digits {n : Nat} {c : Char} (h : c ∈ Decimal.digits n) :
    c.isDigit = true :=
  Nat.isDigit_of_mem_toDigits (by norm_num) (by norm_num) h

/-- The digits of a number give its value. -/
theorem ofDigitChars_digits (n : Nat) : Nat.ofDigitChars 10 (Decimal.digits n) 0 = n :=
  Nat.ofDigitChars_toDigits (by norm_num) (by norm_num)

/-- Zeros are digits. -/
theorem isDigit_of_mem_replicate {n : Nat} {c : Char} (h : c ∈ List.replicate n '0') :
    c.isDigit = true := by
  rw [List.eq_of_mem_replicate h]
  rfl

section Layout

variable {ds : List Char} {d : Digits}

/-- An integer with zeros behind its digits, and one after the point. -/
theorem exists_literal_padded (hdigit : ∀ c ∈ ds, c.isDigit = true)
    (hvalue : Nat.ofDigitChars 10 ds 0 = d.coefficient) (hds : ds ≠ [])
    (hlt : d.coefficient < 10 ^ ds.length) (hexponent : 0 ≤ d.exponent)
    (hpoint : ds.length + d.exponent ≤ 16) :
    ∃ l : Decimal.Literal, ds ++ List.replicate d.exponent.toNat '0' ++ ".0".toList = l.chars ∧
      l.IsDecimal ∧ l.Spells d := by
  obtain ⟨n, hn⟩ := Int.eq_ofNat_of_zero_le hexponent
  rw [hn, Int.toNat_natCast]
  have hdigits : Nat.ofDigitChars 10 (ds ++ List.replicate n '0' ++ ['0']) 0 =
      10 ^ n * d.coefficient * 10 := by
    rw [Nat.ofDigitChars_append, Nat.ofDigitChars_append, Nat.ofDigitChars_replicate_zero, hvalue,
      Nat.ofDigitChars_cons, Nat.ofDigitChars_nil]
    norm_num
    ring
  refine ⟨⟨ds ++ List.replicate n '0', some ['0'], none⟩, ?_, ⟨?_, ?_, .inl rfl⟩, ?_, ?_⟩
  · simp [Decimal.Literal.chars]
  · intro c hc
    simp only [Decimal.Literal.digits, Option.getD_some, List.mem_append, List.mem_singleton] at hc
    rcases hc with (hc | hc) | rfl
    · exact hdigit c hc
    · exact isDigit_of_mem_replicate hc
    · rfl
  · simp [hds]
  · change (Nat.ofDigitChars 10 (ds ++ List.replicate n '0' ++ ['0']) 0 : ℚ) * 10 ^ (-1 : ℤ) = _
    rw [hdigits, hn, zpow_natCast]
    push_cast
    norm_num
    ring
  · change Nat.ofDigitChars 10 (ds ++ List.replicate n '0' ++ ['0']) 0 < 2 ^ 128
    rw [hdigits]
    have hpow : 10 ^ n * d.coefficient < 10 ^ 16 := by
      calc 10 ^ n * d.coefficient < 10 ^ n * 10 ^ ds.length :=
            Nat.mul_lt_mul_of_pos_left hlt (by positivity)
        _ = 10 ^ (n + ds.length) := (pow_add _ _ _).symm
        _ ≤ 10 ^ 16 := Nat.pow_le_pow_right (by norm_num) (by omega)
    omega

/-- The point stands among the digits. -/
theorem exists_literal_pointed (hdigit : ∀ c ∈ ds, c.isDigit = true)
    (hvalue : Nat.ofDigitChars 10 ds 0 = d.coefficient) (hds : ds ≠ [])
    (hle : d.coefficient ≤ 10 ^ 17) (hexponent : d.exponent < 0)
    (hpoint : 0 < ds.length + d.exponent) :
    ∃ l : Decimal.Literal, ds.take (ds.length + d.exponent).toNat ++
        '.' :: ds.drop (ds.length + d.exponent).toNat = l.chars ∧ l.IsDecimal ∧ l.Spells d := by
  obtain ⟨n, hn⟩ := Int.eq_ofNat_of_zero_le hpoint.le
  rw [hn, Int.toNat_natCast]
  refine ⟨⟨ds.take n, some (ds.drop n), none⟩, ?_, ⟨?_, ?_, .inl rfl⟩, ?_⟩
  · simp [Decimal.Literal.chars]
  · simpa [Decimal.Literal.digits, List.take_append_drop] using hdigit
  · simp [hds]
    omega
  · apply Decimal.Literal.spells_of_digits _ _ hle
    · simpa [Decimal.Literal.digits, List.take_append_drop] using hvalue
    · simp only [Decimal.Literal.scale, Option.getD_none, Option.getD_some, List.length_drop]
      omega

/-- Zeros stand between the point and the digits. -/
theorem exists_literal_small (hdigit : ∀ c ∈ ds, c.isDigit = true)
    (hvalue : Nat.ofDigitChars 10 ds 0 = d.coefficient) (hle : d.coefficient ≤ 10 ^ 17)
    (hpoint : ds.length + d.exponent ≤ 0) :
    ∃ l : Decimal.Literal, "0.".toList ++
        List.replicate (-(ds.length + d.exponent)).toNat '0' ++ ds = l.chars ∧
      l.IsDecimal ∧ l.Spells d := by
  refine ⟨⟨['0'], some (List.replicate (-(ds.length + d.exponent)).toNat '0' ++ ds), none⟩, ?_,
    ⟨?_, by simp, .inl rfl⟩, ?_⟩
  · simp [Decimal.Literal.chars]
  · intro c hc
    simp only [Decimal.Literal.digits, Option.getD_some, List.mem_append, List.mem_singleton] at hc
    rcases hc with rfl | hc | hc
    · rfl
    · exact isDigit_of_mem_replicate hc
    · exact hdigit c hc
  · apply Decimal.Literal.spells_of_digits _ _ hle
    · simp only [Decimal.Literal.digits, Option.getD_some, List.singleton_append,
        Nat.ofDigitChars_cons, Nat.ofDigitChars_append, Nat.ofDigitChars_replicate_zero]
      simpa using hvalue
    · simp only [Decimal.Literal.scale, Option.getD_none, Option.getD_some, List.length_append,
        List.length_replicate]
      omega

/-- An exponent, with the point after the first digit if there are others. -/
theorem exists_literal_scientific {c : Char} {cs : List Char}
    (hdigit : ∀ x ∈ c :: cs, x.isDigit = true)
    (hvalue : Nat.ofDigitChars 10 (c :: cs) 0 = d.coefficient) (hle : d.coefficient ≤ 10 ^ 17) :
    ∃ l : Decimal.Literal, c :: ((if cs = [] then [] else '.' :: cs) ++
        'e' :: integer ((c :: cs).length + d.exponent - 1)) = l.chars ∧
      l.IsDecimal ∧ l.Spells d := by
  refine ⟨⟨[c], if cs = [] then none else some cs, some ((c :: cs).length + d.exponent - 1)⟩, ?_,
    ⟨?_, by simp, .inr rfl⟩, ?_⟩
  · cases cs with
    | nil => rfl
    | cons c' cs => rfl
  · cases cs with
    | nil => simpa [Decimal.Literal.digits] using hdigit
    | cons c' cs => simpa [Decimal.Literal.digits] using hdigit
  · apply Decimal.Literal.spells_of_digits _ _ hle
    · cases cs with
      | nil => simpa [Decimal.Literal.digits] using hvalue
      | cons c' cs => simpa [Decimal.Literal.digits] using hvalue
    · cases cs with
      | nil => simp [Decimal.Literal.scale]
      | cons c' cs =>
        simp [Decimal.Literal.scale]
        omega

end Layout

/-- A number is written as a decimal literal, which spells out its shortest decimal. -/
theorem layout_eq_literal {d : Digits} (hne : d.coefficient ≠ 0)
    (hle : d.coefficient ≤ 10 ^ 17) :
    ∃ l : Decimal.Literal, Yaml.numberFormat.layout d = l.chars ∧ l.IsDecimal ∧ l.Spells d := by
  have hdigit : ∀ c ∈ Decimal.digits d.coefficient, c.isDigit = true :=
    fun c hc => isDigit_of_mem_digits hc
  have hvalue := ofDigitChars_digits d.coefficient
  have hds : Decimal.digits d.coefficient ≠ [] := Nat.toDigits_ne_nil
  have hlt : d.coefficient < 10 ^ (Decimal.digits d.coefficient).length :=
    (Nat.length_toDigits_le_iff (by norm_num) (List.length_pos_of_ne_nil hds)).1 le_rfl
  rw [NumberFormat.layout, if_neg hne]
  change ∃ l : Decimal.Literal, (if 0 ≤ d.exponent ∧
    (Decimal.digits d.coefficient).length + d.exponent ≤ 16 then _ else _) = _ ∧ _
  generalize Decimal.digits d.coefficient = ds at *
  split_ifs with h₁ h₂ h₃
  · exact exists_literal_padded hdigit hvalue hds hlt h₁.1 h₁.2
  · have hexponent : d.exponent < 0 := not_le.1 fun hge => h₁ ⟨hge, h₂.2⟩
    exact exists_literal_pointed hdigit hvalue hds hle hexponent h₂.1
  · exact exists_literal_small hdigit hvalue hle h₃.1
  · cases ds with
    | nil => exact absurd rfl hds
    | cons c cs =>
      have h := exists_literal_scientific hdigit hvalue hle
      cases cs with
      | nil => exact h
      | cons c' cs => exact h

/-! ## Reading literals -/

namespace Yaml.Scalar

/-- The digits of a number are read back. -/
theorem digitsValue_digits (n : Nat) : digitsValue 10 (Decimal.digits n) = some n := by
  have hne : Decimal.digits n ≠ [] := Nat.toDigits_ne_nil
  rw [digitsValue_of_digits hne fun c hc => isDigit_of_mem_digits hc, ofDigitChars_digits]

/-- The digits of a number do not begin with a sign. -/
theorem exists_digits_eq_cons (n : Nat) :
    ∃ c cs, Decimal.digits n = c :: cs ∧ c.isDigit = true := by
  cases h : Decimal.digits n with
  | nil => exact absurd h Nat.toDigits_ne_nil
  | cons c cs =>
    refine ⟨c, cs, rfl, isDigit_of_mem_digits (n := n) ?_⟩
    rw [h]
    exact List.mem_cons_self

/-- An exponent is read as it was written. -/
theorem exponent?_integer (i : Int) : exponent? ('e' :: Decimal.integer i) = some i := by
  have hdigits := digitsValue_digits i.natAbs
  rw [Decimal.integer]
  split_ifs with hneg
  · change (digitsValue 10 (Decimal.digits i.natAbs)).map (fun n => -(n : Int)) = some i
    rw [hdigits]
    exact congrArg some (by omega : -(i.natAbs : Int) = i)
  · obtain ⟨c, cs, hcs, hc⟩ := exists_digits_eq_cons i.natAbs
    rw [hcs] at hdigits ⊢
    unfold exponent?
    simp only [decide_true, Bool.true_or, if_true]
    split
    · next heq =>
      obtain ⟨rfl, -⟩ := List.cons.inj heq
      cases hc
    · next heq =>
      obtain ⟨rfl, -⟩ := List.cons.inj heq
      cases hc
    · rw [hdigits]
      exact congrArg some (by omega : (i.natAbs : Int) = i)

/-- The digits in front of a text are those up to the first other character. -/
theorem span_digits {ds : List Char} (rest : List Char) (hds : ∀ c ∈ ds, c.isDigit = true)
    (hrest : ∀ c ∈ rest.head?, c.isDigit = false) :
    (ds ++ rest).takeWhile Char.isDigit = ds ∧ (ds ++ rest).dropWhile Char.isDigit = rest := by
  rw [List.takeWhile_append_of_pos hds, List.dropWhile_append_of_pos hds]
  cases rest with
  | nil => simp
  | cons c cs => simp [hrest c rfl]

/-- A literal is read as the decimal that it spells out. -/
theorem decimal?_chars {l : Decimal.Literal} (hl : l.IsDecimal) (negative : Bool) :
    decimal? negative l.chars =
      some (.ofDecimal negative (Nat.ofDigitChars 10 l.digits 0) l.scale) := by
  obtain ⟨whole, fraction, exponent⟩ := l
  have hwhole : ∀ c ∈ whole, c.isDigit = true :=
    fun c hc => hl.digits c (List.mem_append_left _ hc)
  have hne : whole ≠ [] := hl.whole
  -- the exponent at the end
  have hexponent : exponent? (exponent.elim [] ('e' :: Decimal.integer ·)) =
      some (exponent.getD 0) := by
    cases exponent with
    | none => rfl
    | some i => exact exponent?_integer i
  have hstart : ∀ c ∈ (exponent.elim [] ('e' :: Decimal.integer ·)).head?, c.isDigit = false := by
    cases exponent with
    | none => simp
    | some i => simp
  rw [decimal?, Decimal.Literal.chars]
  cases fraction with
  | some fraction =>
    have hfraction : ∀ c ∈ fraction, c.isDigit = true :=
      fun c hc => hl.digits c (List.mem_append_right _ hc)
    obtain ⟨htake, hdrop⟩ := span_digits ('.' :: (fraction ++
      exponent.elim [] ('e' :: Decimal.integer ·))) hwhole (by simp)
    obtain ⟨htake', hdrop'⟩ := span_digits _ hfraction hstart
    have hdigits : digitsValue 10 (whole ++ fraction) = some _ :=
      digitsValue_of_digits (by simp [hne]) hl.digits
    simp only [Option.elim_some, List.cons_append, htake, hdrop, htake', hdrop', hdigits, hexponent]
    rfl
  | none =>
    cases exponent with
    | none => simpa using hl.inexact
    | some i =>
      obtain ⟨htake, hdrop⟩ := span_digits _ hwhole hstart
      have hdigits : digitsValue 10 (whole ++ []) = some _ :=
        digitsValue_of_digits (by simp [hne]) hl.digits
      rw [Option.elim_some] at hexponent htake hdrop
      simp only [Option.elim_none, Option.elim_some, List.nil_append, htake, hdrop]
      change ((digitsValue 10 (whole ++ [])).bind fun digits =>
        (exponent? ('e' :: Decimal.integer i)).bind fun exponent =>
          some (Binary64.ofDecimal negative digits (exponent - (0 : Nat)))) = _
      rw [hdigits, hexponent]
      rfl

/-! ## What the texts of numbers stand for -/

/-- A character that a number begins with: no other plain scalar that stands for something does. -/
theorem isNull_eq_false {c : Char} (cs : List Char) (h : c.isDigit = true ∨ c = '-') :
    isNull (c :: cs) = false ∧ bool? (c :: cs) = none := by
  have hne : ∀ d, d.isDigit = false → d ≠ '-' → c ≠ d := by
    rintro d hd hd' rfl
    rcases h with h | h
    · rw [h] at hd
      cases hd
    · exact hd' h
  have h₁ : c ≠ 'n' := hne _ (by decide) (by decide)
  have h₂ : c ≠ 'N' := hne _ (by decide) (by decide)
  have h₃ : c ≠ '~' := hne _ (by decide) (by decide)
  have h₄ : c ≠ 't' := hne _ (by decide) (by decide)
  have h₅ : c ≠ 'T' := hne _ (by decide) (by decide)
  have h₆ : c ≠ 'f' := hne _ (by decide) (by decide)
  have h₇ : c ≠ 'F' := hne _ (by decide) (by decide)
  constructor
  · simp [isNull, h₁, h₂, h₃]
  · simp [bool?, h₄, h₅, h₆, h₇]

/-- Digits after a number do not bring it to the next one. -/
theorem ofDigitChars_lt {cs : List Char} (h : ∀ c ∈ cs, c.isDigit = true) (n : Nat) :
    Nat.ofDigitChars 10 cs n < (n + 1) * 10 ^ cs.length := by
  induction cs generalizing n with
  | nil => simp
  | cons c cs ih =>
    have hlt := (hexValue_of_isDigit (h c List.mem_cons_self)).2
    have hc : '0'.toNat = 48 := rfl
    rw [Nat.ofDigitChars_cons, List.length_cons, pow_succ, hc]
    calc _ < (10 * n + (c.toNat - 48) + 1) * 10 ^ cs.length :=
          ih (fun c hc => h c (List.mem_cons_of_mem _ hc)) _
      _ ≤ ((n + 1) * 10) * 10 ^ cs.length := Nat.mul_le_mul_right _ (by omega)
      _ = (n + 1) * (10 ^ cs.length * 10) := by ring

/-- The digits of a number have no needless zero in front. -/
theorem isPadded_digits (n : Nat) : isPadded (Decimal.digits n) = false := by
  obtain ⟨c, cs, hcs, hc⟩ := exists_digits_eq_cons n
  have hsigned : isSigned (c :: cs) = false := by
    unfold isSigned
    split
    · next heq =>
      obtain ⟨rfl, -⟩ := List.cons.inj heq
      cases hc
    · next heq =>
      obtain ⟨rfl, -⟩ := List.cons.inj heq
      cases hc
    · rfl
  rw [hcs, isPadded]
  simp only [hsigned, Bool.false_eq_true, if_false]
  by_contra hpadded
  obtain ⟨hlen, hzero, -⟩ : 0 < cs.length ∧ c = '0' ∧ _ := by simpa using hpadded
  -- without the zero there would be as many digits as the number has
  have hvalue := ofDigitChars_digits n
  rw [hcs, Nat.ofDigitChars_cons, hzero] at hvalue
  have hlt : n < 10 ^ cs.length := by
    have hdigits : ∀ c ∈ cs, c.isDigit = true :=
      fun c hc => isDigit_of_mem_digits (n := n) (by simp [hcs, hc])
    have := ofDigitChars_lt hdigits 0
    simpa [← hvalue] using this
  have hle := (Nat.length_toDigits_le_iff (b := 10) (by norm_num) hlen).2 hlt
  have : (Decimal.digits n).length ≤ cs.length := hle
  rw [hcs] at this
  simp at this

/-- The digits of a number are read as the number. -/
theorem natural?_digits (n : Nat) : natural? (Decimal.digits n) = some n := by
  have hbased : based? (Decimal.digits n) = none := by
    have hdigit : ∀ c ∈ Decimal.digits n, c.isDigit = true := fun c hc => isDigit_of_mem_digits hc
    unfold based?
    split
    · next heq => simp [heq] at hdigit
    · next heq => simp [heq] at hdigit
    · next heq => simp [heq] at hdigit
    · rfl
  rw [natural?, hbased]
  simp [isPadded_digits, digitsValue_digits]

/-- An integer that a value can hold is read as it was written. -/
theorem ofPlain_integer {i : Int} (h : isWide i = false) :
    ofPlain (.ofList (Decimal.integer i)) = .integer i := by
  obtain ⟨hlow, hhigh⟩ : -(2 ^ 63) ≤ i ∧ i < 2 ^ 64 := by
    simp only [isWide, Bool.or_eq_false_iff, decide_eq_false_iff_not, not_lt, not_le] at h
    exact h
  have hread : integer? (Decimal.integer i) = some i := by
    have hnatural := natural?_digits i.natAbs
    rw [Decimal.integer]
    split_ifs with hneg
    · have hle : i.natAbs ≤ 2 ^ 127 := by omega
      change ((natural? (Decimal.digits i.natAbs)).bind fun n =>
        if n ≤ 2 ^ 127 then some (-(n : Int)) else none) = some i
      rw [hnatural, Option.bind_some, if_pos hle]
      exact congrArg some (by omega : -(i.natAbs : Int) = i)
    · have hlt : i.natAbs < 2 ^ 128 := by omega
      obtain ⟨c, cs, hcs, hc⟩ := exists_digits_eq_cons i.natAbs
      rw [hcs] at hnatural ⊢
      unfold integer?
      split
      · next heq =>
        obtain ⟨rfl, -⟩ := List.cons.inj heq
        cases hc
      · next heq =>
        obtain ⟨rfl, -⟩ := List.cons.inj heq
        cases hc
      · rw [hnatural]
        change (if i.natAbs < 2 ^ 128 then some (i.natAbs : Int) else none) = some i
        rw [if_pos hlt]
        exact congrArg some (by omega : (i.natAbs : Int) = i)
  have hstart : ∃ c cs, Decimal.integer i = c :: cs ∧ (c.isDigit = true ∨ c = '-') := by
    rw [Decimal.integer]
    split_ifs with hneg
    · exact ⟨_, _, rfl, .inr rfl⟩
    · obtain ⟨c, cs, hcs, hc⟩ := exists_digits_eq_cons i.natAbs
      exact ⟨c, cs, hcs, .inl hc⟩
  obtain ⟨c, cs, hcs, hc⟩ := hstart
  obtain ⟨hnull, hbool⟩ := isNull_eq_false cs hc
  rw [hcs] at hread
  simp [ofPlain, hcs, hnull, hbool, hread]

/-- A literal begins with a digit and has a point or an exponent after its first digits. -/
theorem exists_chars_eq {l : Decimal.Literal} (hl : l.IsDecimal) :
    ∃ c cs d rest, l.chars = c :: cs ++ d :: rest ∧ (∀ x ∈ c :: cs, x.isDigit = true) ∧
      (d = '.' ∨ d = 'e') := by
  obtain ⟨whole, fraction, exponent⟩ := l
  have hdigits : ∀ c ∈ whole, c.isDigit = true :=
    fun c hc => hl.digits c (List.mem_append_left _ hc)
  cases whole with
  | nil => exact absurd rfl hl.whole
  | cons c cs =>
    cases fraction with
    | some fraction => exact ⟨c, cs, '.', _, rfl, hdigits, .inl rfl⟩
    | none =>
      cases exponent with
      | some i => exact ⟨c, cs, 'e', _, rfl, hdigits, .inr rfl⟩
      | none => simpa using hl.inexact

/-- A literal is not read as an integer, and it is not text because of a zero in front. -/
theorem natural?_chars {l : Decimal.Literal} (hl : l.IsDecimal) :
    natural? l.chars = none ∧ l.chars.all Char.isDigit = false := by
  obtain ⟨c, cs, d, rest, hchars, hdigits, hd⟩ := exists_chars_eq hl
  have hmem : d ∈ c :: cs ++ d :: rest := by simp
  have hnone : digitsValue 10 (c :: cs ++ d :: rest) = none := by
    refine digitsValue_eq_none hmem fun v hv => ?_
    rcases hd with rfl | rfl
    · cases hv
    · have : Text.Percent.hexValue 'e' = some 14 := by decide
      rw [this] at hv
      obtain rfl := Option.some.inj hv
      norm_num
  -- the second character marks no base
  have hsecond : ∀ x ∈ (cs ++ d :: rest).head?, x.isDigit = true ∨ x = '.' ∨ x = 'e' := by
    cases cs with
    | nil =>
      intro x hx
      obtain rfl : d = x := by simpa using hx
      exact .inr hd
    | cons y ys =>
      intro x hx
      obtain rfl : y = x := by simpa using hx
      exact .inl (hdigits _ (by simp))
  have hbased : based? (c :: cs ++ d :: rest) = none := by
    unfold based?
    split
    · next heq =>
      rw [List.cons_append] at heq
      simp [(List.cons.inj heq).2] at hsecond
    · next heq =>
      rw [List.cons_append] at heq
      simp [(List.cons.inj heq).2] at hsecond
    · next heq =>
      rw [List.cons_append] at heq
      simp [(List.cons.inj heq).2] at hsecond
    · rfl
  rw [hchars]
  constructor
  · rw [natural?, hbased, hnone]
    simp
  · rw [List.all_eq_false]
    refine ⟨d, hmem, ?_⟩
    rcases hd with rfl | rfl <;> decide

/-- A literal, with a sign in front or without, stands for the floating-point number that it is read
as. -/
theorem ofPlain_chars {l : Decimal.Literal} (hl : l.IsDecimal) {negative : Bool} {x : Binary64}
    (hx : decimal? negative l.chars = some x) (hfinite : x.isFinite = true) :
    ofPlain (.ofList (if negative then '-' :: l.chars else l.chars)) = .float x := by
  obtain ⟨hnatural, hall⟩ := natural?_chars hl
  obtain ⟨c, cs, d, rest, hchars, hdigits, -⟩ := exists_chars_eq hl
  have hc : c.isDigit = true := hdigits c (by simp)
  have hplus : c ≠ '+' := by rintro rfl; cases hc
  have hminus : c ≠ '-' := by rintro rfl; cases hc
  have hpoint : c ≠ '.' := by rintro rfl; cases hc
  rw [hchars, List.cons_append] at hx hnatural hall ⊢
  generalize cs ++ d :: rest = cs at *
  have hfilter : (some x).filter (·.isFinite) = some x := by simp [hfinite]
  cases negative with
  | true =>
    obtain ⟨hnull, hbool⟩ := isNull_eq_false (c :: cs) (.inr (rfl : '-' = '-'))
    have hinteger : integer? ('-' :: c :: cs) = none := by
      change (natural? (c :: cs)).bind _ = none
      rw [hnatural, Option.bind_none]
    have hpadded : isPadded ('-' :: c :: cs) = false := by
      simp only [isPadded, isSigned, if_true, List.tail_cons, hall, Bool.and_false]
    have hfloat : float? ('-' :: c :: cs) = some x := by
      simp [float?, hpoint, hx, hfinite]
    simp [ofPlain, hnull, hbool, hinteger, hpadded, hfloat]
  | false =>
    obtain ⟨hnull, hbool⟩ := isNull_eq_false cs (.inl hc)
    have hinteger : integer? (c :: cs) = none := by
      simp [integer?, hplus, hminus, hnatural]
    have hpadded : isPadded (c :: cs) = false := by
      have hsigned : isSigned (c :: cs) = false := by simp [isSigned, hplus, hminus]
      simp only [isPadded, hsigned, Bool.false_eq_true, if_false, hall, Bool.and_false]
    have hfloat : float? (c :: cs) = some x := by
      simp [float?, hplus, hminus, hpoint, hx, hfinite]
    simp [ofPlain, hnull, hbool, hinteger, hpadded, hfloat]

end Yaml.Scalar

namespace Yaml.Number

/-- What a number stands for as a scalar. -/
def scalar : Number → Scalar
  | .integer i => .integer i
  | .float x => .float x

/-- A number that a value can hold after it has been read: an integer of at most 64 bits, or a
floating-point number in normal form. -/
def IsProper : Number → Prop
  | .integer i => Scalar.isWide i = false
  | .float x => x.IsProper

/-- The text of a finite number other than zero is a decimal literal. -/
theorem exists_literal {m : Nat} {e : Int} (hm : Binary64.IsNormal m e) :
    ∃ l : Decimal.Literal, numberFormat.layout (shortest m e) = l.chars ∧ l.IsDecimal ∧
      l.Spells (shortest m e) := by
  obtain ⟨hrounds, hle⟩ := shortest_spec hm
  refine layout_eq_literal (fun hzero => ?_) hle
  have hpos := (hrounds.range hm).1
  rw [hzero, Nat.cast_zero, zero_mul] at hpos
  exact absurd hpos (not_lt.2 (by positivity))

/-- A plain scalar with the canonical text of a number stands for the number. -/
theorem ofPlain_text {n : Number} (h : n.IsProper) : Scalar.ofPlain n.text = n.scalar := by
  cases n with
  | integer i => exact Scalar.ofPlain_integer h
  | float x =>
    cases x with
    | nan => decide
    | infinite negative => cases negative <;> decide
    | finite negative m e =>
      rcases h with ⟨rfl, rfl⟩ | hm
      · cases negative <;> decide
      obtain ⟨l, hlayout, hl, hspells⟩ := exists_literal hm
      have hread : Scalar.decimal? negative l.chars = some (.finite negative m e) := by
        rw [Scalar.decimal?_chars hl]
        congr 1
        apply Binary64.ofDecimal_of_rounds negative hm hspells.bounded
        rw [hspells.value]
        exact (shortest_spec hm).1
      have htext : Number.text (.float (.finite negative m e)) =
          .ofList (if negative then '-' :: l.chars else l.chars) := by
        rw [Number.text, NumberFormat.write, hlayout]
      rw [htext]
      exact Scalar.ofPlain_chars hl hread rfl

end Yaml.Number

namespace Yaml.Scalar

/-- A floating-point number that is read is kept in normal form. -/
theorem isProper_of_float? {cs : List Char} {x : Binary64} (h : float? cs = some x) :
    x.IsProper := by
  have hdecimal : ∀ {negative cs}, (decimal? negative cs).filter (·.isFinite) = some x →
      x.IsProper := by
    intro negative cs h
    rw [Option.filter_eq_some_iff] at h
    obtain ⟨digits, -, h⟩ := Option.bind_eq_some_iff.1 h.1
    obtain ⟨exponent, -, h⟩ := Option.bind_eq_some_iff.1 h
    rw [← Option.some.inj h]
    exact Binary64.isProper_ofDecimal
  unfold float? at h
  dsimp only at h
  split at h
  · split at h
    · cases h
      trivial
    · exact hdecimal h
  · split at h
    · cases h
      trivial
    · exact hdecimal h
  · split at h
    · cases h
      trivial
    · split at h
      · cases h
        trivial
      · exact hdecimal h

end Yaml.Scalar

end Rollout
