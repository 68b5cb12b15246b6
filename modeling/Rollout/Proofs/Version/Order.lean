import Rollout.Version

/-!
# The order of versions

Components, bases, qualifiers and versions are compared by functions whose answers are those of a
linear order: each of them is an instance of `Std.TransCmp`, which says that it does not matter from
which side one asks and that the order is transitive, and of `Std.LawfulEqCmp`, which says that it
finds only a thing equal to itself. A version that has been read can be told by its text
(`eq_iff_text_eq`), and so a list of versions has one ascending order, in whichever order it is
given. The main statement is `compare_is_linear`.
-/

namespace Rollout.Version

open Std

/-! ## Components, bases and qualifiers -/

/-- It does not matter from which side two components are compared. -/
theorem Component.compare_swap (a b : Component) : a.compare b = (b.compare a).swap := by
  cases a with
  | number n =>
    cases b with
    | number m => exact OrientedOrd.eq_swap
    | word t => rfl
  | word s =>
    cases b with
    | number m => rfl
    | word t =>
      change Ord.compare s t = (Ord.compare t s).swap
      exact OrientedOrd.eq_swap

/-- Three components in a row: numbers come first, and each kind has an order of its own. -/
theorem Component.compare_trans {a b c : Component} (hab : (a.compare b).isLE)
    (hbc : (b.compare c).isLE) : (a.compare c).isLE := by
  cases b with
  | number m =>
    -- what comes before a number is a number
    cases a with
    | word s => contradiction
    | number n =>
      cases c with
      | number k => exact TransOrd.isLE_trans hab hbc
      | word u => rfl
  | word t =>
    -- what comes after a word is a word
    cases c with
    | number k => contradiction
    | word u =>
      cases a with
      | number n => rfl
      | word s =>
        change (Ord.compare s u).isLE
        exact TransOrd.isLE_trans hab hbc

/-- Only a component that is the same compares as equal. -/
theorem Component.compare_eq_eq_iff {a b : Component} : a.compare b = .eq ↔ a = b := by
  cases a with
  | number n =>
    cases b with
    | number m =>
      rw [Component.number.injEq]
      exact LawfulEqOrd.compare_eq_iff_eq
    | word t => simp [Component.compare]
  | word s =>
    cases b with
    | number m => simp [Component.compare]
    | word t =>
      rw [Component.word.injEq]
      change Ord.compare s t = .eq ↔ s = t
      exact LawfulEqOrd.compare_eq_iff_eq

instance : TransCmp Component.compare where
  eq_swap := Component.compare_swap _ _
  isLE_trans := Component.compare_trans

instance : LawfulEqCmp Component.compare where
  compare_self := Component.compare_eq_eq_iff.2 rfl
  eq_of_compare := Component.compare_eq_eq_iff.1

/-- Things that are compared by a key of theirs are ordered as the keys are. -/
theorem transCmp_of_key {α β : Type} (key : α → β) (cmp : β → β → Ordering) [TransCmp cmp] :
    TransCmp fun a b => cmp (key a) (key b) where
  eq_swap := OrientedCmp.eq_swap
  isLE_trans := TransCmp.isLE_trans

/-- Bases are compared by their components and then by their texts. -/
theorem compareSegment_eq : compareSegment =
    compareLex
      (fun a b => List.compareLex Component.compare (components a.toList) (components b.toList))
      (fun a b => List.compareLex Ord.compare a.toList b.toList) := rfl

instance : TransCmp compareSegment := by
  have hcomponents := transCmp_of_key (fun s : String => components s.toList)
    (List.compareLex Component.compare)
  have htexts := transCmp_of_key String.toList (List.compareLex (Ord.compare (α := Char)))
  rw [compareSegment_eq]
  infer_instance

/-- Bases with equal components are still told apart by their texts. -/
theorem compareSegment_eq_eq_iff {a b : String} : compareSegment a b = .eq ↔ a = b := by
  constructor
  · intro h
    have htexts : List.compareLex Ord.compare a.toList b.toList = .eq :=
      (Ordering.then_eq_eq.1 h).2
    exact String.toList_inj.1 (LawfulEqCmp.eq_of_compare htexts)
  · rintro rfl
    exact ReflCmp.compare_self

instance : LawfulEqCmp compareSegment where
  compare_self := ReflCmp.compare_self
  eq_of_compare := compareSegment_eq_eq_iff.1

/-- It does not matter from which side two qualifiers are compared. -/
theorem compareQualifier_swap (a b : Option String) :
    compareQualifier a b = (compareQualifier b a).swap := by
  match a, b with
  | none, none | none, some _ | some _, none => rfl
  | some s, some t =>
    change compareSegment s t = (compareSegment t s).swap
    exact OrientedCmp.eq_swap

/-- Three qualifiers in a row, of which those that are missing come first. -/
theorem compareQualifier_trans {a b c : Option String} (hab : (compareQualifier a b).isLE)
    (hbc : (compareQualifier b c).isLE) : (compareQualifier a c).isLE := by
  match a, b, c with
  | none, _, none | none, _, some _ => rfl
  | some _, none, _ => contradiction
  | some _, some _, none => contradiction
  | some s, some t, some u =>
    change (compareSegment s u).isLE
    exact TransCmp.isLE_trans hab hbc

/-- A missing qualifier is equal to none that is there. -/
theorem compareQualifier_eq_eq_iff {a b : Option String} :
    compareQualifier a b = .eq ↔ a = b := by
  match a, b with
  | none, none | none, some _ | some _, none => simp [compareQualifier]
  | some s, some t =>
    rw [Option.some.injEq]
    exact compareSegment_eq_eq_iff

instance : TransCmp compareQualifier where
  eq_swap := compareQualifier_swap _ _
  isLE_trans := compareQualifier_trans

/-! ## Versions -/

/-- Versions are compared by their bases and then by their qualifiers. -/
theorem compare_eq : compare = compareLex (fun a b => compareSegment a.base b.base)
    (fun a b => compareQualifier a.qualifier b.qualifier) := rfl

instance : TransCmp compare := by
  have hbases := transCmp_of_key base compareSegment
  have hqualifiers := transCmp_of_key qualifier compareQualifier
  rw [compare_eq]
  infer_instance

/-- Only a version that is the same compares as equal. -/
theorem compare_eq_eq_iff {a b : Version} : compare a b = .eq ↔ a = b := by
  rw [compare, Ordering.then_eq_eq, compareSegment_eq_eq_iff, compareQualifier_eq_eq_iff,
    Version.mk.injEq]

instance : LawfulEqCmp compare where
  compare_self := ReflCmp.compare_self
  eq_of_compare := compare_eq_eq_iff.1

/-- A version is at most another if the comparison does not put it after it. -/
theorem le_iff {a b : Version} : a ≤ b ↔ (compare a b).isLE := by
  constructor
  · rintro ⟨o, ho, hle⟩
    obtain rfl := Option.some.inj ho
    exact hle
  · intro hle
    exact ⟨_, rfl, hle⟩

/-- The order of versions is transitive. -/
theorem le_trans {a b c : Version} (hab : a ≤ b) (hbc : b ≤ c) : a ≤ c := by
  rw [le_iff] at hab hbc ⊢
  exact TransCmp.isLE_trans hab hbc

/-- Versions that are at most each other are equal. -/
theorem le_antisymm {a b : Version} (hab : a ≤ b) (hba : b ≤ a) : a = b := by
  rw [le_iff] at hab hba
  exact LawfulEqCmp.eq_of_compare (OrientedCmp.isLE_antisymm hab hba)

/-- Of two versions one is at most the other. -/
theorem le_total (a b : Version) : a ≤ b ∨ b ≤ a := by
  have hswap : compare b a = (compare a b).swap := OrientedCmp.eq_swap
  rw [le_iff, le_iff, hswap]
  cases compare a b <;> simp

/-! ## Texts -/

/-- The text of a version is the text that it was read from. -/
theorem text_of_parse {s : String} {v : Version} (h : parse s = .ok v) : v.text = s := by
  have hjoin := Text.intercalate_splitOn '+' s.toList
  rw [parse, Text.split] at h
  rcases hs : Text.splitOn '+' s.toList with _ | ⟨base, _ | ⟨qualifier, _ | ⟨third, more⟩⟩⟩
  · exact absurd hs (Text.splitOn_ne_nil _ _)
  · rw [hs] at h hjoin
    simp only [List.map_cons, List.map_nil] at h
    split at h
    · cases h
    · obtain rfl := Except.ok.inj h
      have hbase : base = s.toList := by simpa [List.intercalate, List.intersperse] using hjoin
      rw [hbase]
      exact String.ofList_toList
  · rw [hs] at h hjoin
    simp only [List.map_cons, List.map_nil] at h
    split at h
    · cases h
    · obtain rfl := Except.ok.inj h
      have hboth : base ++ '+' :: qualifier = s.toList := by
        simpa [List.intercalate, List.intersperse] using hjoin
      apply String.toList_inj.1
      simpa [text] using hboth
  · rw [hs] at h
    simp at h

/-- A text that is no version is named by the error. -/
theorem error_of_parse {s : String} {e : VersionFormatError} (h : parse s = .error e) :
    e = ⟨s⟩ := by
  unfold parse at h
  split at h
  · split at h
    · exact (Except.error.inj h).symm
    · cases h
  · split at h
    · exact (Except.error.inj h).symm
    · cases h
  · exact (Except.error.inj h).symm

/-- Versions that have been read are the same if they have the same text. -/
theorem eq_iff_text_eq {s t : String} {a b : Version} (ha : parse s = .ok a)
    (hb : parse t = .ok b) : a = b ↔ a.text = b.text := by
  constructor
  · rintro rfl
    rfl
  · intro h
    rw [text_of_parse ha, text_of_parse hb] at h
    rw [h] at ha
    exact Except.ok.inj (ha.symm.trans hb)

/-! ## Lists of versions -/

/-- The comparison by which versions are sorted asks whether the one is at most the other. -/
theorem compare_ne_gt_iff {a b : Version} : (compare a b != .gt) = true ↔ a ≤ b := by
  rw [le_iff]
  cases compare a b <;> decide

/-- Sorting keeps the versions. -/
theorem perm_sort (vs : List Version) : (sort vs).Perm vs := List.mergeSort_perm _ _

/-- Sorted versions do not decrease. -/
theorem pairwise_sort (vs : List Version) : (sort vs).Pairwise (· ≤ ·) := by
  have hsorted : (sort vs).Pairwise fun a b => (compare a b != .gt) = true := by
    apply List.pairwise_mergeSort
    · intro a b c hab hbc
      rw [compare_ne_gt_iff] at hab hbc ⊢
      exact le_trans hab hbc
    · intro a b
      rw [Bool.or_eq_true, compare_ne_gt_iff, compare_ne_gt_iff]
      exact le_total a b
  exact hsorted.imp compare_ne_gt_iff.1

/-- A list of versions has one ascending order, in whichever order it is given. -/
theorem sort_eq_of_perm {vs ws : List Version} (h : vs.Perm ws) : sort vs = sort ws := by
  have hperm : (sort vs).Perm (sort ws) := (perm_sort vs).trans (h.trans (perm_sort ws).symm)
  exact hperm.eq_of_pairwise (fun a b _ _ => le_antisymm) (pairwise_sort vs) (pairwise_sort ws)

/-- The order of versions is linear. The comparison of two versions answers the reverse when it is
asked from the other side, any two versions can be compared, and what is at most another version is
at most whatever that one is at most. The partial order is this order and always answers. Versions
compare as equal only if they are the same, and those that have been read are the same only if they
have the same text. Sorting gives the versions of a list in ascending order, and the same list for
every order in which they are given. -/
theorem compare_is_linear (a b c : Version) (vs ws : List Version) :
    compare a b = (compare b a).swap ∧ partialCompare a b = some (compare a b) ∧
      (a ≤ b ↔ compare a b ≠ .gt) ∧ (a ≤ b ∨ b ≤ a) ∧ (a ≤ b → b ≤ c → a ≤ c) ∧
      (compare a b = .eq ↔ a = b) ∧
      (∀ s t, parse s = .ok a → parse t = .ok b → (a = b ↔ a.text = b.text)) ∧
      (sort vs).Perm vs ∧ (sort vs).Pairwise (· ≤ ·) ∧ (vs.Perm ws → sort vs = sort ws) := by
  refine ⟨OrientedCmp.eq_swap, rfl, ?_, le_total a b, le_trans, compare_eq_eq_iff, ?_, perm_sort vs,
    pairwise_sort vs, sort_eq_of_perm⟩
  · rw [← compare_ne_gt_iff, bne_iff_ne]
  · intro s t ha hb
    exact eq_iff_text_eq ha hb

/-- A version with a zero in front of its first number. -/
def paddedVersion : Version := ⟨"01.9", none⟩

/-- The version with the same numbers without that zero. -/
def plainVersion : Version := ⟨"1.9", none⟩

/-- A version that is later than both, although its text comes before theirs. -/
def laterVersion : Version := ⟨"1.10", some "dev"⟩

/-- The three versions one after the other, and sorted from another order. -/
theorem compare_is_linear_sample :
    parse "01.9" = .ok paddedVersion ∧ parse "1.9" = .ok plainVersion ∧
      paddedVersion ≠ plainVersion ∧ paddedVersion ≤ plainVersion ∧ plainVersion ≤ laterVersion ∧
      paddedVersion ≤ laterVersion ∧
      sort [laterVersion, paddedVersion, plainVersion] =
        sort [paddedVersion, plainVersion, laterVersion] := by
  have hpadded : parse "01.9" = .ok paddedVersion := rfl
  have hplain : parse "1.9" = .ok plainVersion := rfl
  have hperm : [laterVersion, paddedVersion, plainVersion].Perm
      [paddedVersion, plainVersion, laterVersion] := by decide
  obtain ⟨-, -, hle, -, htrans, -, htext, -, -, hsort⟩ := compare_is_linear paddedVersion
    plainVersion laterVersion [laterVersion, paddedVersion, plainVersion]
    [paddedVersion, plainVersion, laterVersion]
  have hfirst : paddedVersion ≤ plainVersion := hle.2 (by decide)
  have hsecond : plainVersion ≤ laterVersion := le_iff.2 (by decide)
  have hne : paddedVersion.text ≠ plainVersion.text := by decide
  exact ⟨hpadded, hplain, fun h => hne ((htext _ _ hpadded hplain).1 h), hfirst, hsecond,
    htrans hfirst hsecond, hsort hperm⟩

end Rollout.Version
