import Rollout.Proofs.Yaml.Position
import Rollout.Proofs.Yaml.ValueReading

/-!
# Values that are the same

Being the same value is an equivalence of values that can be read: every value is the same as
itself (`same_refl`), what is the same as a third value is the same (`same_trans`), and the order of
two values does not matter (`IsProper.same_symm`). Mappings need an argument for the last, since
only one of the two is searched for the entries of the other: if no key comes twice in the first,
the entries of the second are used up when all those of the first have been found.
-/

namespace Rollout

/-! ## Numbers -/

namespace Decimal.Binary64

variable {x y z : Binary64}

/-- Every floating-point number has the value of itself, also one that is not a number. -/
theorem sameValue_refl (x : Binary64) : x.sameValue x = true := by
  cases x <;> simp [sameValue]

/-- Which of two floating-point numbers comes first does not matter. -/
theorem sameValue_symm (h : x.sameValue y = true) : y.sameValue x = true := by
  unfold sameValue at h ⊢
  cases x <;> cases y <;> grind

/-- Floating-point numbers with the value of a third one have the same value. -/
theorem sameValue_trans (hxy : x.sameValue y = true) (hyz : y.sameValue z = true) :
    x.sameValue z = true := by
  unfold sameValue at hxy hyz ⊢
  cases x <;> cases y <;> cases z <;> grind

end Decimal.Binary64

namespace Yaml.Number

variable {n m k : Number}

/-- Every number has the value of itself. -/
theorem sameValue_refl (n : Number) : n.sameValue n = true := by
  cases n with
  | integer n => exact beq_self_eq_true n
  | float x => exact x.sameValue_refl

/-- An integer has the value of no number but itself. -/
theorem integer_sameValue_iff {i : Int} : (integer i).sameValue m = true ↔ integer i = m := by
  cases m <;> simp [sameValue]

/-- A floating-point number is compared with floating-point numbers only. -/
theorem float_sameValue_iff {x : Decimal.Binary64} :
    (float x).sameValue m = true ↔ ∃ y, float y = m ∧ x.sameValue y = true := by
  cases m <;> simp [sameValue]

/-- Which of two numbers comes first does not matter. -/
theorem sameValue_symm (h : n.sameValue m = true) : m.sameValue n = true := by
  cases n with
  | integer i =>
    obtain rfl := integer_sameValue_iff.1 h
    exact sameValue_refl _
  | float x =>
    obtain ⟨y, rfl, hxy⟩ := float_sameValue_iff.1 h
    exact float_sameValue_iff.2 ⟨x, rfl, Decimal.Binary64.sameValue_symm hxy⟩

/-- Numbers with the value of a third one have the same value. -/
theorem sameValue_trans (hnm : n.sameValue m = true) (hmk : m.sameValue k = true) :
    n.sameValue k = true := by
  cases n with
  | integer i =>
    obtain rfl := integer_sameValue_iff.1 hnm
    exact hmk
  | float x =>
    obtain ⟨y, rfl, hxy⟩ := float_sameValue_iff.1 hnm
    obtain ⟨z, rfl, hyz⟩ := float_sameValue_iff.1 hmk
    exact float_sameValue_iff.2 ⟨z, rfl, Decimal.Binary64.sameValue_trans hxy hyz⟩

end Yaml.Number

namespace Yaml.Value

variable {v w u : Value} {as bs : Entries}

/-! ## Items and entries -/

/-- Lists are the same if they are so item by item. -/
theorem sameItems_iff {vs ws : List Value} :
    sameItems vs ws = true ↔ List.Forall₂ (fun v w => v.same w = true) vs ws := by
  induction vs generalizing ws with
  | nil =>
    cases ws with
    | nil => exact iff_of_true rfl .nil
    | cons => exact iff_of_false Bool.false_ne_true nofun
  | cons v vs ih =>
    cases ws with
    | nil => exact iff_of_false Bool.false_ne_true nofun
    | cons w ws => rw [sameItems, Bool.and_eq_true, ih, List.forall₂_cons]

/-- Both parts of an entry are the same as those of another. -/
def SameEntry (e e' : Value × Value) : Prop := e.1.same e'.1 = true ∧ e.2.same e'.2 = true

/-- A mapping lies within another one if each of its entries is the same as one there. -/
theorem within_iff : within as bs = true ↔ ∀ e ∈ as, ∃ e' ∈ bs, SameEntry e e' := by
  induction as with
  | nil => exact iff_of_true rfl (List.forall_mem_nil _)
  | cons e as ih =>
    rw [within, Bool.and_eq_true, ih, List.forall_mem_cons, List.any_eq_true]
    simp only [Bool.and_eq_true, SameEntry]

/-- A list has no other elements than those that are found for the elements of a list of the same
length, if no element is found twice. -/
theorem exists_of_forall_exists {α β : Type} {R : α → β → Prop} {as : List α} {bs : List β}
    (hlength : as.length = bs.length) (hapart : as.Pairwise fun a a' => ∀ b, R a b → ¬R a' b)
    (h : ∀ a ∈ as, ∃ b ∈ bs, R a b) : ∀ b ∈ bs, ∃ a ∈ as, R a b := by
  induction as generalizing bs with
  | nil =>
    obtain rfl := List.length_eq_zero_iff.1 hlength.symm
    exact List.forall_mem_nil _
  | cons a as ih =>
    obtain ⟨⟨b₀, hb₀, hab⟩, has⟩ := List.forall_mem_cons.1 h
    obtain ⟨hhead, hapart⟩ := List.pairwise_cons.1 hapart
    obtain ⟨before, after, rfl⟩ := List.append_of_mem hb₀
    -- What has been found for the first element is not found again.
    have hothers : ∀ a' ∈ as, ∃ b ∈ before ++ after, R a' b := by
      intro a' ha'
      obtain ⟨b, hb, hab'⟩ := has a' ha'
      have hne : b ≠ b₀ := fun heq => hhead a' ha' b₀ hab (heq ▸ hab')
      exact ⟨b, by simpa [hne] using hb, hab'⟩
    intro b hb
    by_cases heq : b = b₀
    · exact ⟨a, List.mem_cons_self, heq ▸ hab⟩
    · have hb : b ∈ before ++ after := by simpa [heq] using hb
      obtain ⟨a', ha', hab'⟩ := ih (by simp at hlength ⊢; omega) hapart hothers b hb
      exact ⟨a', List.mem_cons_of_mem _ ha', hab'⟩

/-! ## What a value is the same as -/

/-- A null is the same as a null only. -/
theorem null_same_iff : null.same w = true ↔ null = w := by
  cases w <;> simp [same]

/-- A truth value is the same as itself only. -/
theorem bool_same_iff {b : Bool} : (bool b).same w = true ↔ bool b = w := by
  cases w <;> simp [same]

/-- A number is the same as the numbers with its value. -/
theorem number_same_iff {n : Number} :
    (number n).same w = true ↔ ∃ m, number m = w ∧ n.sameValue m = true := by
  cases w <;> simp [same]

/-- A string is the same as itself only. -/
theorem string_same_iff {s : String} : (string s).same w = true ↔ string s = w := by
  cases w <;> simp [same]

/-- A list is the same as the lists whose items are the same, one by one. -/
theorem sequence_same_iff {vs : List Value} : (sequence vs).same w = true ↔
    ∃ ws, sequence ws = w ∧ List.Forall₂ (fun v w => v.same w = true) vs ws := by
  cases w <;> simp [same, sameItems_iff]

/-- A mapping is the same as the mappings with as many entries that have each of its own among
them. -/
theorem mapping_same_iff : (mapping as).same w = true ↔
    ∃ bs, mapping bs = w ∧ as.length = bs.length ∧ ∀ e ∈ as, ∃ e' ∈ bs, SameEntry e e' := by
  cases w <;> simp [same, within_iff]

/-- A tagged value is the same as the values with the same tag and the same content. -/
theorem tagged_same_iff {tag : String} :
    (tagged tag v).same w = true ↔ ∃ w', tagged tag w' = w ∧ v.same w' = true := by
  cases w <;> simp [same]

/-! ## The equivalence -/

/-- Every value is the same as itself. -/
theorem same_refl (v : Value) : v.same v = true := by
  induction v using tree_induction with
  | null => rfl
  | bool b => exact bool_same_iff.2 rfl
  | number n => exact number_same_iff.2 ⟨n, rfl, n.sameValue_refl⟩
  | string s => exact string_same_iff.2 rfl
  | sequence items ih => exact sequence_same_iff.2 ⟨items, rfl, List.forall₂_same.2 ih⟩
  | mapping entries ih =>
    exact mapping_same_iff.2 ⟨entries, rfl, rfl, fun e he => ⟨e, he, ih e he⟩⟩
  | tagged tag v ih => exact tagged_same_iff.2 ⟨v, rfl, ih⟩

/-- What is the same as a value that is the same as a third is the same as the third. -/
theorem same_trans (hvw : v.same w = true) (hwu : w.same u = true) : v.same u = true := by
  induction v using tree_induction generalizing w u with
  | null =>
    obtain rfl := null_same_iff.1 hvw
    exact hwu
  | bool b =>
    obtain rfl := bool_same_iff.1 hvw
    exact hwu
  | number n =>
    obtain ⟨m, rfl, hnm⟩ := number_same_iff.1 hvw
    obtain ⟨k, rfl, hmk⟩ := number_same_iff.1 hwu
    exact number_same_iff.2 ⟨k, rfl, Number.sameValue_trans hnm hmk⟩
  | string s =>
    obtain rfl := string_same_iff.1 hvw
    exact hwu
  | sequence vs ih =>
    obtain ⟨ws, rfl, hws⟩ := sequence_same_iff.1 hvw
    obtain ⟨us, rfl, hus⟩ := sequence_same_iff.1 hwu
    obtain ⟨hvws, hws⟩ := List.forall₂_iff_get.1 hws
    obtain ⟨hwus, hus⟩ := List.forall₂_iff_get.1 hus
    refine sequence_same_iff.2 ⟨us, rfl, List.forall₂_iff_get.2 ⟨hvws.trans hwus, ?_⟩⟩
    intro i hv hu
    have hw : i < ws.length := hvws ▸ hv
    exact ih _ (List.get_mem vs ⟨i, hv⟩) (hws i hv hw) (hus i hw hu)
  | mapping as ih =>
    obtain ⟨bs, rfl, hab, has⟩ := mapping_same_iff.1 hvw
    obtain ⟨cs, rfl, hbc, hbs⟩ := mapping_same_iff.1 hwu
    refine mapping_same_iff.2 ⟨cs, rfl, hab.trans hbc, fun e he => ?_⟩
    obtain ⟨e', he', hkey, hvalue⟩ := has e he
    obtain ⟨e'', he'', hkey', hvalue'⟩ := hbs e' he'
    exact ⟨e'', he'', (ih e he).1 hkey hkey', (ih e he).2 hvalue hvalue'⟩
  | tagged tag v ih =>
    obtain ⟨w, rfl, hw⟩ := tagged_same_iff.1 hvw
    obtain ⟨u, rfl, hu⟩ := tagged_same_iff.1 hwu
    exact tagged_same_iff.2 ⟨u, rfl, ih hw hu⟩

/-- A value that is the same as a value that can be read is so in both orders. -/
theorem IsProper.same_symm (hv : v.IsProper) (h : v.same w = true) : w.same v = true := by
  induction hv generalizing w with
  | null =>
    obtain rfl := null_same_iff.1 h
    rfl
  | bool b =>
    obtain rfl := bool_same_iff.1 h
    exact same_refl _
  | number _ =>
    obtain ⟨m, rfl, hnm⟩ := number_same_iff.1 h
    exact number_same_iff.2 ⟨_, rfl, Number.sameValue_symm hnm⟩
  | string s =>
    obtain rfl := string_same_iff.1 h
    exact same_refl _
  | sequence _ ih =>
    obtain ⟨ws, rfl, hws⟩ := sequence_same_iff.1 h
    obtain ⟨hlength, hws⟩ := List.forall₂_iff_get.1 hws
    refine sequence_same_iff.2 ⟨_, rfl, List.forall₂_iff_get.2 ⟨hlength.symm, ?_⟩⟩
    intro i hw hv
    exact ih _ (List.get_mem _ _) (hws i hv hw)
  | @mapping as _ _ hdistinct ihkeys ihvalues =>
    obtain ⟨bs, rfl, hlength, has⟩ := mapping_same_iff.1 h
    -- No entry is the same as two of the first mapping, since their keys would be the same.
    have hapart : as.Pairwise fun e e' => ∀ b, SameEntry e b → ¬SameEntry e' b := by
      refine hdistinct.imp_of_mem fun {e e'} _ he' hdiffer b hb hb' => ?_
      have hsame : e.1.same e'.1 = true := same_trans hb.1 (ihkeys e' he' hb'.1)
      exact absurd hsame (Bool.eq_false_iff.1 hdiffer)
    refine mapping_same_iff.2 ⟨as, rfl, hlength.symm, fun b hb => ?_⟩
    obtain ⟨e, he, hkey, hvalue⟩ := exists_of_forall_exists hlength hapart has b hb
    exact ⟨e, he, ihkeys e he hkey, ihvalues e he hvalue⟩
  | tagged _ ih =>
    obtain ⟨w, rfl, hw⟩ := tagged_same_iff.1 h
    exact tagged_same_iff.2 ⟨_, rfl, ih hw⟩

/-- Values that are the same are the same as the same values. -/
theorem IsProper.same_congr (hv : v.IsProper) (h : v.same w = true) (u : Value) :
    v.same u = w.same u :=
  Bool.eq_iff_iff.2 ⟨fun hvu => same_trans (hv.same_symm h) hvu, fun hwu => same_trans h hwu⟩

end Yaml.Value

end Rollout
