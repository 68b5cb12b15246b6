import Mathlib.Data.Nat.Digits.Lemmas
import Rollout.Proofs.Version.Order

/-!
# Which version comes first

When one version precedes another, told without the comparison. Bases and qualifiers are cut into
pieces at their dots. At the first piece in which two of them differ in more than leading zeros,
numbers come by size and before all other pieces, and other pieces come by their text; a base that
ends before there is such a piece comes first, and bases that differ in leading zeros only come by
their text (`SegmentBefore`). `Precedes` says this for versions, with the pieces that count as
numbers as a parameter.

The comparison keeps a number in 64 bits. It follows the rules above for the numerals that fit,
`IsShort`, and takes a longer one for a text (`compare_follows_precedence`), so that it follows them
for all numerals, `IsNumeral`, unless a version holds a longer one.
-/

namespace Rollout.Version

open Std

/-! ## Numerals -/

/-- The texts between the dots of a base or a qualifier. -/
def pieces (s : String) : List (List Char) := Text.splitOn '.' s.toList

/-- A piece that is made of digits only. -/
def IsNumeral (p : List Char) : Prop := p ≠ [] ∧ ∀ c ∈ p, c.isDigit = true

/-- The number that a numeral stands for. -/
def value (p : List Char) : Nat := Nat.ofDigitChars 10 p 0

/-- A numeral whose number fits into 64 bits. -/
def IsShort (p : List Char) : Prop := IsNumeral p ∧ value p < 2 ^ 64

/-- A piece without the zeros at its beginning. -/
def dropZeros (p : List Char) : List Char := p.dropWhile (· == '0')

/-- Leading zeros do not change the value of a numeral. -/
theorem value_dropZeros (p : List Char) : value (dropZeros p) = value p := by
  induction p with
  | nil => rfl
  | cons c p ih =>
    unfold dropZeros
    rw [List.dropWhile_cons]
    split
    · next hc =>
      rw [eq_of_beq hc]
      exact ih
    · rfl

/-- The number of a numeral, with its digits from the last one on. -/
theorem value_eq_ofDigits (p : List Char) :
    value p = Nat.ofDigits 10 ((p.map fun c => c.toNat - '0'.toNat).reverse) := by
  induction p using List.reverseRecOn with
  | nil => rfl
  | append_singleton p c ih =>
    unfold value at ih ⊢
    rw [Nat.ofDigitChars_append, ih, Nat.ofDigitChars_cons, Nat.ofDigitChars_nil, List.map_append,
      List.reverse_append, List.map_singleton, List.reverse_singleton, List.singleton_append,
      Nat.ofDigits_cons]
    exact Nat.add_comm _ _

/-- A digit is less than ten. -/
theorem digit_lt {c : Char} (h : c.isDigit = true) : c.toNat - '0'.toNat < 10 := by
  obtain ⟨-, hle⟩ := Char.isDigit_iff_toNat.1 h
  have hnine : '9'.toNat = '0'.toNat + 9 := rfl
  omega

/-- The character of a digit's value is the digit. -/
theorem digitChar_digit {c : Char} (h : c.isDigit = true) :
    Nat.digitChar (c.toNat - '0'.toNat) = c := by
  obtain ⟨hle, -⟩ := Char.isDigit_iff_toNat.1 h
  apply Char.toNat_inj.1
  rw [Nat.toNat_digitChar_of_lt_ten (digit_lt h)]
  have hzero : '0'.toNat = 48 := rfl
  omega

/-- A numeral that does not begin with a zero can be told by its number. -/
theorem digits_value {p : List Char} (hdigits : ∀ c ∈ p, c.isDigit = true)
    (hhead : ∀ h : p ≠ [], p.head h ≠ '0') :
    (Nat.digits 10 (value p)).reverse.map Nat.digitChar = p := by
  have hdigits' : Nat.digits 10 (value p) = (p.map fun c => c.toNat - '0'.toNat).reverse := by
    rw [value_eq_ofDigits]
    apply Nat.digits_ofDigits 10 (by norm_num)
    · intro d hd
      obtain ⟨c, hc, rfl⟩ := List.mem_map.1 (List.mem_reverse.1 hd)
      exact digit_lt (hdigits c hc)
    · intro hne hlast
      rw [List.getLast_reverse, List.head_map] at hlast
      have hp : p ≠ [] := by
        rintro rfl
        exact hne rfl
      apply hhead hp
      rw [← digitChar_digit (hdigits _ (List.head_mem hp)), hlast]
      rfl
  rw [hdigits', List.reverse_reverse, List.map_map]
  calc p.map (Nat.digitChar ∘ fun c => c.toNat - '0'.toNat)
      = p.map id := List.map_congr_left fun c hc => digitChar_digit (hdigits c hc)
    _ = p := List.map_id p

/-- Numerals of one number differ in nothing but the zeros at their beginning. -/
theorem value_eq_iff {p q : List Char} (hp : IsNumeral p) (hq : IsNumeral q) :
    value p = value q ↔ dropZeros p = dropZeros q := by
  constructor
  · intro h
    rw [← value_dropZeros p, ← value_dropZeros q] at h
    have htold : ∀ r : List Char, IsNumeral r →
        (Nat.digits 10 (value (dropZeros r))).reverse.map Nat.digitChar = dropZeros r := by
      intro r hr
      apply digits_value
      · intro c hc
        exact hr.2 c ((List.dropWhile_sublist _).subset hc)
      · intro hne hzero
        have hhead := List.head_dropWhile_not (· == '0') hne
        rw [beq_eq_false_iff_ne] at hhead
        exact hhead hzero
    rw [← htold p hp, ← htold q hq, h]
  · intro h
    rw [← value_dropZeros p, ← value_dropZeros q, h]

/-! ## Precedence -/

section Precedence

variable (Counts : List Char → Prop)

/-- Two pieces do not differ, or they count as numbers and differ in leading zeros only. -/
def Agrees (p q : List Char) : Prop := p = q ∨ Counts p ∧ Counts q ∧ dropZeros p = dropZeros q

/-- A piece comes before another one. -/
inductive PieceBefore : List Char → List Char → Prop
  /-- Numbers come by size. -/
  | smaller {p q : List Char} (hp : Counts p) (hq : Counts q) (h : value p < value q) :
    PieceBefore p q
  /-- A number comes before a piece that is none. -/
  | number {p q : List Char} (hp : Counts p) (hq : ¬ Counts q) : PieceBefore p q
  /-- Other pieces come by their text. -/
  | text {p q : List Char} (hp : ¬ Counts p) (hq : ¬ Counts q) (h : p < q) : PieceBefore p q

/-- Some pieces come before others. -/
inductive PiecesBefore : List (List Char) → List (List Char) → Prop
  /-- The first pieces that do not agree decide. -/
  | differ {ps qs rest rest' : List (List Char)} {p q : List Char}
    (agree : List.Forall₂ (Agrees Counts) ps qs) (before : PieceBefore Counts p q) :
    PiecesBefore (ps ++ p :: rest) (qs ++ q :: rest')
  /-- If all of them agree, fewer come before more. -/
  | fewer {ps qs rest : List (List Char)} {q : List Char}
    (agree : List.Forall₂ (Agrees Counts) ps qs) : PiecesBefore ps (qs ++ q :: rest)

/-- A base or a qualifier comes before another one. Their texts matter only if all pieces agree. -/
def SegmentBefore (s t : String) : Prop :=
  PiecesBefore Counts (pieces s) (pieces t) ∨
    List.Forall₂ (Agrees Counts) (pieces s) (pieces t) ∧ s.toList < t.toList

/-- No qualifier comes before any qualifier. -/
inductive QualifierBefore : Option String → Option String → Prop
  | missing (t : String) : QualifierBefore none (some t)
  | before {s t : String} (h : SegmentBefore Counts s t) : QualifierBefore (some s) (some t)

/-- A version precedes another one by its base, or if they have one base by its qualifier. -/
def Precedes (a b : Version) : Prop :=
  SegmentBefore Counts a.base b.base ∨
    a.base = b.base ∧ QualifierBefore Counts a.qualifier b.qualifier

variable {Counts} {p q : List Char} {ps qs : List (List Char)}

/-- No pieces come before none. -/
theorem not_piecesBefore_nil : ¬ PiecesBefore Counts ps [] := by
  intro h
  generalize hqs : [] = qs at h
  cases h <;> simp at hqs

/-- No pieces come before some. -/
theorem piecesBefore_nil_cons : PiecesBefore Counts [] (q :: qs) :=
  .fewer .nil

/-- The first pieces decide unless they agree. -/
theorem piecesBefore_cons_iff : PiecesBefore Counts (p :: ps) (q :: qs) ↔
    PieceBefore Counts p q ∨ Agrees Counts p q ∧ PiecesBefore Counts ps qs := by
  constructor
  · intro h
    generalize hps : p :: ps = ps' at h
    generalize hqs : q :: qs = qs' at h
    cases h with
    | differ agree before =>
      cases agree with
      | nil =>
        obtain ⟨rfl, -⟩ := List.cons_eq_cons.1 hps
        obtain ⟨rfl, -⟩ := List.cons_eq_cons.1 hqs
        exact .inl before
      | cons first agree =>
        obtain ⟨rfl, rfl⟩ := List.cons_eq_cons.1 hps
        obtain ⟨rfl, rfl⟩ := List.cons_eq_cons.1 hqs
        exact .inr ⟨first, .differ agree before⟩
    | fewer agree =>
      subst hps
      cases agree with
      | cons first agree =>
        obtain ⟨rfl, rfl⟩ := List.cons_eq_cons.1 hqs
        exact .inr ⟨first, .fewer agree⟩
  · rintro (before | ⟨first, h⟩)
    · exact .differ .nil before
    · cases h with
      | differ agree before => exact .differ (.cons first agree) before
      | fewer agree => exact .fewer (.cons first agree)

end Precedence

/-! ## The comparison -/

section Comparison

variable {Counts : List Char → Prop} {p q : List Char} {ps qs : List (List Char)}

/-- A numeral of up to 64 bits is compared by its value. -/
theorem ofChars_of_isShort (h : IsShort p) : Component.ofChars p = .number (value p) := by
  obtain ⟨⟨hne, hdigits⟩, hvalue⟩ := h
  have hcheck : (!p.isEmpty && p.all Char.isDigit && decide (value p < Nat.pow 2 64)) = true := by
    rw [Bool.and_eq_true, Bool.and_eq_true, decide_eq_true_eq, List.all_eq_true]
    exact ⟨⟨by simpa using hne, hdigits⟩, hvalue⟩
  exact if_pos hcheck

/-- Any other piece is compared as a word. -/
theorem ofChars_of_not_isShort (h : ¬ IsShort p) : Component.ofChars p = .word p := by
  have hcheck : ¬ (!p.isEmpty && p.all Char.isDigit && decide (value p < Nat.pow 2 64)) = true := by
    rw [Bool.and_eq_true, Bool.and_eq_true, decide_eq_true_eq, List.all_eq_true]
    rintro ⟨⟨hne, hdigits⟩, hvalue⟩
    exact h ⟨⟨by simpa using hne, hdigits⟩, hvalue⟩
  exact if_neg hcheck

/-- The comparison of texts finds what comes first in the order of lists. -/
theorem compareLex_chars_eq_lt_iff : List.compareLex Ord.compare p q = .lt ↔ p < q := by
  induction p generalizing q with
  | nil =>
    cases q with
    | nil => simp [List.compareLex_nil_nil]
    | cons d q => simp [List.compareLex_nil_cons]
  | cons c p ih =>
    cases q with
    | nil => simp [List.compareLex_cons_nil]
    | cons d q =>
      have hchars : Ord.compare c d = .lt ↔ c < d := compareOfLessAndEq_eq_lt
      rw [List.compareLex_cons_cons, Ordering.then_eq_lt, List.cons_lt_cons_iff, ih, hchars,
        LawfulEqOrd.compare_eq_iff_eq]

/-- Pieces compare as equal if they agree, provided that just the short numerals among them count as
numbers. -/
theorem compare_ofChars_eq_eq_iff (hp : Counts p ↔ IsShort p) (hq : Counts q ↔ IsShort q) :
    (Component.ofChars p).compare (.ofChars q) = .eq ↔ Agrees Counts p q := by
  unfold Agrees
  rw [Component.compare_eq_eq_iff, hp, hq]
  by_cases hshort : IsShort p
  · by_cases hshort' : IsShort q
    · rw [ofChars_of_isShort hshort, ofChars_of_isShort hshort', Component.number.injEq,
        value_eq_iff hshort.1 hshort'.1]
      constructor
      · intro h
        exact .inr ⟨hshort, hshort', h⟩
      · rintro (rfl | ⟨-, -, h⟩)
        · rfl
        · exact h
    · rw [ofChars_of_isShort hshort, ofChars_of_not_isShort hshort']
      constructor
      · intro h
        cases h
      · rintro (rfl | ⟨-, h, -⟩)
        · exact absurd hshort hshort'
        · exact absurd h hshort'
  · rw [ofChars_of_not_isShort hshort]
    by_cases hshort' : IsShort q
    · rw [ofChars_of_isShort hshort']
      constructor
      · intro h
        cases h
      · rintro (rfl | ⟨h, -, -⟩)
        · exact absurd hshort' hshort
        · exact absurd h hshort
    · rw [ofChars_of_not_isShort hshort', Component.word.injEq]
      exact (or_iff_left fun h => hshort h.1).symm

/-- The comparison finds which piece comes first, under the same proviso. -/
theorem compare_ofChars_eq_lt_iff (hp : Counts p ↔ IsShort p) (hq : Counts q ↔ IsShort q) :
    (Component.ofChars p).compare (.ofChars q) = .lt ↔ PieceBefore Counts p q := by
  by_cases hshort : IsShort p
  · rw [ofChars_of_isShort hshort]
    by_cases hshort' : IsShort q
    · rw [ofChars_of_isShort hshort']
      change Ord.compare (value p) (value q) = .lt ↔ _
      rw [Nat.compare_eq_lt]
      constructor
      · intro h
        exact .smaller (hp.2 hshort) (hq.2 hshort') h
      · intro h
        cases h with
        | smaller _ _ h => exact h
        | number _ hnot => exact absurd (hq.2 hshort') hnot
        | text hnot _ _ => exact absurd (hp.2 hshort) hnot
    · rw [ofChars_of_not_isShort hshort']
      exact iff_of_true rfl (.number (hp.2 hshort) fun h => hshort' (hq.1 h))
  · rw [ofChars_of_not_isShort hshort]
    have hword : ¬ Counts p := fun h => hshort (hp.1 h)
    by_cases hshort' : IsShort q
    · rw [ofChars_of_isShort hshort']
      refine iff_of_false Ordering.noConfusion fun h => ?_
      cases h with
      | smaller hcount _ _ | number hcount _ => exact hword hcount
      | text _ hnot _ => exact hnot (hq.2 hshort')
    · rw [ofChars_of_not_isShort hshort']
      change List.compareLex Ord.compare p q = .lt ↔ _
      rw [compareLex_chars_eq_lt_iff]
      constructor
      · intro h
        exact .text hword (fun h => hshort' (hq.1 h)) h
      · intro h
        cases h with
        | smaller hcount _ _ | number hcount _ => exact absurd hcount hword
        | text _ _ h => exact h

/-- Lists of pieces compare as equal if their pieces agree one by one. -/
theorem compareLex_ofChars_eq_eq_iff (hps : ∀ p ∈ ps, Counts p ↔ IsShort p)
    (hqs : ∀ q ∈ qs, Counts q ↔ IsShort q) :
    List.compareLex Component.compare (ps.map .ofChars) (qs.map .ofChars) = .eq ↔
      List.Forall₂ (Agrees Counts) ps qs := by
  induction ps generalizing qs with
  | nil =>
    cases qs with
    | nil => simp [List.compareLex_nil_nil]
    | cons q qs => simp [List.compareLex_nil_cons]
  | cons p ps ih =>
    cases qs with
    | nil => simp [List.compareLex_cons_nil]
    | cons q qs =>
      obtain ⟨hp, hps⟩ := List.forall_mem_cons.1 hps
      obtain ⟨hq, hqs⟩ := List.forall_mem_cons.1 hqs
      rw [List.map_cons, List.map_cons, List.compareLex_cons_cons, Ordering.then_eq_eq,
        compare_ofChars_eq_eq_iff hp hq, ih hps hqs, List.forall₂_cons]

/-- The comparison of lists of pieces finds which of them come first. -/
theorem compareLex_ofChars_eq_lt_iff (hps : ∀ p ∈ ps, Counts p ↔ IsShort p)
    (hqs : ∀ q ∈ qs, Counts q ↔ IsShort q) :
    List.compareLex Component.compare (ps.map .ofChars) (qs.map .ofChars) = .lt ↔
      PiecesBefore Counts ps qs := by
  induction ps generalizing qs with
  | nil =>
    cases qs with
    | nil => simp [List.compareLex_nil_nil, not_piecesBefore_nil]
    | cons q qs => simp [List.compareLex_nil_cons, piecesBefore_nil_cons]
  | cons p ps ih =>
    cases qs with
    | nil => simp [List.compareLex_cons_nil, not_piecesBefore_nil]
    | cons q qs =>
      obtain ⟨hp, hps⟩ := List.forall_mem_cons.1 hps
      obtain ⟨hq, hqs⟩ := List.forall_mem_cons.1 hqs
      rw [List.map_cons, List.map_cons, List.compareLex_cons_cons, Ordering.then_eq_lt,
        compare_ofChars_eq_lt_iff hp hq, compare_ofChars_eq_eq_iff hp hq, ih hps hqs,
        piecesBefore_cons_iff]

/-- The comparison of bases finds which of them comes first, provided that just the short numerals
in them count as numbers. -/
theorem compareSegment_eq_lt_iff {s t : String} (hs : ∀ p ∈ pieces s, Counts p ↔ IsShort p)
    (ht : ∀ p ∈ pieces t, Counts p ↔ IsShort p) :
    compareSegment s t = .lt ↔ SegmentBefore Counts s t := by
  unfold compareSegment SegmentBefore components
  rw [Ordering.then_eq_lt, compareLex_chars_eq_lt_iff]
  exact or_congr (compareLex_ofChars_eq_lt_iff hs ht)
    (and_congr_left' (compareLex_ofChars_eq_eq_iff hs ht))

/-- The pieces of a version, those of its base first. -/
def allPieces (v : Version) : List (List Char) := pieces v.base ++ v.qualifier.elim [] pieces

/-- The comparison of versions finds which of them precedes the other, provided that just the short
numerals in them count as numbers. -/
theorem compare_eq_lt_iff {a b : Version} (ha : ∀ p ∈ a.allPieces, Counts p ↔ IsShort p)
    (hb : ∀ p ∈ b.allPieces, Counts p ↔ IsShort p) :
    compare a b = .lt ↔ Precedes Counts a b := by
  obtain ⟨habase, haqualifier⟩ := List.forall_mem_append.1 ha
  obtain ⟨hbbase, hbqualifier⟩ := List.forall_mem_append.1 hb
  have hqualifiers : compareQualifier a.qualifier b.qualifier = .lt ↔
      QualifierBefore Counts a.qualifier b.qualifier := by
    match hq : a.qualifier, hq' : b.qualifier with
    | none, none => exact iff_of_false Ordering.noConfusion nofun
    | none, some t => exact iff_of_true rfl (.missing t)
    | some s, none => exact iff_of_false Ordering.noConfusion nofun
    | some s, some t =>
      rw [hq] at haqualifier
      rw [hq'] at hbqualifier
      change compareSegment s t = .lt ↔ _
      rw [compareSegment_eq_lt_iff haqualifier hbqualifier]
      exact ⟨.before, fun h => by cases h; assumption⟩
  unfold compare Precedes
  rw [Ordering.then_eq_lt, compareSegment_eq_lt_iff habase hbbase, compareSegment_eq_eq_iff,
    hqualifiers]

end Comparison

/-- The comparison of two versions finds which of them precedes the other: by their bases and then
by their qualifiers, none before any; two bases, and two qualifiers, by the first of their pieces
that do not agree, or if there is none by the number of their pieces and at last by their text.
Numerals that fit into 64 bits count as numbers here, whatever zeros they begin with, and a longer
one counts as a text. So all numerals count as numbers if there is no longer one in the two
versions. -/
theorem compare_follows_precedence (a b : Version) :
    (compare a b = .lt ↔ Precedes IsShort a b) ∧ (compare a b = .gt ↔ Precedes IsShort b a) ∧
      (compare a b = .eq ↔ a = b) ∧
      ((∀ p ∈ a.allPieces ++ b.allPieces, IsNumeral p → value p < 2 ^ 64) →
        (compare a b = .lt ↔ Precedes IsNumeral a b) ∧
          (compare a b = .gt ↔ Precedes IsNumeral b a)) := by
  have hgt : compare a b = .gt ↔ compare b a = .lt := OrientedCmp.gt_iff_lt
  rw [hgt]
  refine ⟨compare_eq_lt_iff (fun _ _ => Iff.rfl) fun _ _ => Iff.rfl,
    compare_eq_lt_iff (fun _ _ => Iff.rfl) fun _ _ => Iff.rfl, compare_eq_eq_iff, fun hshort => ?_⟩
  have hcount : ∀ p ∈ a.allPieces ++ b.allPieces, IsNumeral p ↔ IsShort p := by
    intro p hp
    constructor
    · intro hnumeral
      exact ⟨hnumeral, hshort p hp hnumeral⟩
    · exact And.left
  obtain ⟨ha, hb⟩ := List.forall_mem_append.1 hcount
  exact ⟨compare_eq_lt_iff ha hb, compare_eq_lt_iff hb ha⟩

/-- Nine comes before ten, with a zero in front of the first number or without. -/
theorem compare_follows_precedence_sample :
    (∀ p ∈ paddedVersion.allPieces ++ laterVersion.allPieces, value p < 2 ^ 64) ∧
      compare paddedVersion laterVersion = .lt ∧ Precedes IsNumeral paddedVersion laterVersion := by
  have hshort : ∀ p ∈ paddedVersion.allPieces ++ laterVersion.allPieces, value p < 2 ^ 64 := by
    decide
  have hlt : compare paddedVersion laterVersion = .lt := rfl
  obtain ⟨-, -, -, hnumerals⟩ := compare_follows_precedence paddedVersion laterVersion
  exact ⟨hshort, hlt, (hnumerals fun p hp _ => hshort p hp).1.1 hlt⟩

/-- A version whose number takes more than 64 bits. -/
def longVersion : Version := ⟨"99999999999999999999", none⟩

/-- The version with the next number, which has a digit more. -/
def longerVersion : Version := ⟨"100000000000000000000", none⟩

/-- Numerals that do not fit into 64 bits are not compared by their numbers: the smaller one counts
as the later version. -/
theorem not_precedes_numeral_sample :
    parse "99999999999999999999" = .ok longVersion ∧
      parse "100000000000000000000" = .ok longerVersion ∧
      ¬ (compare longVersion longerVersion = .lt ↔
        Precedes IsNumeral longVersion longerVersion) := by
  refine ⟨rfl, rfl, fun hlt => ?_⟩
  have hnumeral : IsNumeral "99999999999999999999".toList :=
    ⟨by decide, List.all_eq_true.1 (by decide)⟩
  have hnumeral' : IsNumeral "100000000000000000000".toList :=
    ⟨by decide, List.all_eq_true.1 (by decide)⟩
  have hvalue : value "99999999999999999999".toList < value "100000000000000000000".toList := by
    decide
  have hprecedes : Precedes IsNumeral longVersion longerVersion :=
    .inl (.inl (.differ .nil (.smaller hnumeral hnumeral' hvalue)))
  have hgt : compare longVersion longerVersion = .gt := rfl
  rw [hlt.2 hprecedes] at hgt
  cases hgt

end Rollout.Version
