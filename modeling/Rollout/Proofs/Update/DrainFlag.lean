import Rollout.Proofs.Text.Joining
import Rollout.Proofs.Text.Trimming
import Rollout.SkipDrain

/-!
# Drain flags

The directive of a flag is sent as the value of a query parameter, and that value can be given as a
flag again. A list of groups that has been read from a flag is one of names that can be written in
such a list (`IsName`), and so it is read back from its value (`groups_intercalate`), with one
exception: the list of the star alone has the value that stands for all groups. A flag has this list
if its text is a star with commas or blanks beside it (`groups_eq_star_iff`). The main statement is
`isCanonical_ofFlag_iff`.
-/

namespace Rollout.SkipDrain

variable {text g : String} {gs : List String} {flag : Option (Option String)}

/-! ## Lists of names -/

/-- A name as it stands in a list. -/
structure IsName (g : String) : Prop where
  ne_empty : g ≠ ""
  first : ∀ c ∈ g.toList.head?, Text.isBlank c = false
  last : ∀ c ∈ g.toList.getLast?, Text.isBlank c = false
  no_comma : ',' ∉ g.toList

/-- The name of a group has no blanks around it. -/
theorem IsName.trim_eq (h : IsName g) : Text.trim g = g :=
  Text.trim_eq_iff.2 (Text.trims_self h.first h.last)

/-- What is read from a list are names. -/
theorem isName_of_mem_groups (h : g ∈ groups text) : IsName g := by
  unfold groups at h
  obtain ⟨hmem, hne⟩ := List.mem_filter.1 h
  obtain ⟨piece, hpiece, rfl⟩ := List.mem_map.1 hmem
  obtain ⟨⟨before, after, hspelled, -, -⟩, hfirst, hlast⟩ :=
    Text.trim_eq_iff.1 (rfl : Text.trim piece = Text.trim piece)
  refine ⟨by simpa using hne, hfirst, hlast, fun hcomma => ?_⟩
  apply Text.notMem_of_mem_split hpiece
  rw [hspelled]
  simp [hcomma]

/-- A list of names is read back from the names that are joined by commas. -/
theorem groups_intercalate (hne : gs ≠ []) (h : ∀ g ∈ gs, IsName g) :
    groups (",".intercalate gs) = gs := by
  have hsplit : Text.split ',' (",".intercalate gs) = gs :=
    Text.split_intercalate hne fun g hg => (h g hg).no_comma
  have htrim : gs.map Text.trim = gs := by
    rw [List.map_congr_left fun g hg => (h g hg).trim_eq, List.map_id']
  unfold groups
  rw [hsplit, htrim, List.filter_eq_self]
  intro g hg
  simpa using (h g hg).ne_empty

/-- Only the list of the star alone is written as a star. -/
theorem intercalate_eq_star_iff (hne : gs ≠ []) (h : ∀ g ∈ gs, IsName g) :
    ",".intercalate gs = "*" ↔ gs = ["*"] := by
  constructor
  · intro hstar
    rw [← groups_intercalate hne h, hstar]
    rfl
  · rintro rfl
    rfl

/-! ## The star -/

/-- The characters that are not blank. -/
def visible (cs : List Char) : List Char := cs.filter (!Text.isBlank ·)

/-- The characters that are neither blanks nor commas. -/
def marks (cs : List Char) : List Char := cs.filter fun c => !Text.isBlank c && c ≠ ','

/-- A text without visible characters is blank. -/
theorem visible_eq_nil_iff {cs : List Char} :
    visible cs = [] ↔ ∀ c ∈ cs, Text.isBlank c = true := by
  unfold visible
  simp

/-- Trimming takes blanks away and nothing else. -/
theorem visible_trim (piece : String) :
    visible (Text.trim piece).toList = visible piece.toList := by
  obtain ⟨⟨before, after, hspelled, hbefore, hafter⟩, -, -⟩ :=
    Text.trim_eq_iff.1 (rfl : Text.trim piece = Text.trim piece)
  have happend (cs cs' : List Char) : visible (cs ++ cs') = visible cs ++ visible cs' :=
    List.filter_append cs cs'
  rw [hspelled, happend, happend, visible_eq_nil_iff.2 hbefore, visible_eq_nil_iff.2 hafter]
  simp

/-- The pieces between the commas have the marks of a text. -/
theorem flatMap_visible_split (text : String) :
    (Text.split ',' text).flatMap (visible ·.toList) = marks text.toList := by
  have hpiece : ∀ p ∈ Text.splitOn ',' text.toList, visible p = marks (',' :: p) := by
    intro p hp
    have hcomma := Text.notMem_of_mem_splitOn hp
    unfold visible marks
    rw [List.filter_cons_of_neg (by simp)]
    refine List.filter_congr fun c hc => ?_
    have hne : c ≠ ',' := by
      rintro rfl
      exact hcomma hc
    simp [hne]
  have hmarks := congrArg marks (Text.flatMap_splitOn ',' text.toList)
  unfold Text.split
  rw [List.flatMap_map]
  simp only [String.toList_ofList]
  rw [List.flatMap_congr hpiece]
  unfold marks at hmarks ⊢
  rw [List.filter_flatMap, List.filter_cons_of_neg (by simp)] at hmarks
  exact hmarks

/-- The names of a list have its marks. -/
theorem flatMap_visible_groups (text : String) :
    (groups text).flatMap (visible ·.toList) = marks text.toList := by
  rw [← flatMap_visible_split]
  unfold groups
  induction Text.split ',' text with
  | nil => rfl
  | cons piece pieces ih =>
    rw [List.map_cons, List.filter_cons, List.flatMap_cons, ← visible_trim piece]
    split
    · rw [List.flatMap_cons, ih]
    · next h =>
      have hempty : Text.trim piece = "" := by simpa using h
      rw [ih, hempty]
      rfl

/-- The name of a group has a visible character. -/
theorem IsName.visible_ne_nil (h : IsName g) : visible g.toList ≠ [] := by
  cases hg : g.toList with
  | nil => exact absurd (String.toList_eq_nil_iff.1 hg) h.ne_empty
  | cons c cs =>
    have hc := h.first c (by rw [hg, List.head?_cons, Option.mem_def])
    intro hnil
    rw [visible_eq_nil_iff.1 hnil c List.mem_cons_self] at hc
    cases hc

/-- There are no blanks around the only character of a name that is not blank. -/
theorem IsName.eq_singleton {c : Char} (h : IsName g) (hc : visible g.toList = [c]) :
    g.toList = [c] := by
  cases hg : g.toList with
  | nil => exact absurd (String.toList_eq_nil_iff.1 hg) h.ne_empty
  | cons d ds =>
    have hd := h.first d (by rw [hg, List.head?_cons, Option.mem_def])
    rw [hg, visible, List.filter_cons_of_pos (by simp [hd]), List.cons.injEq] at hc
    obtain ⟨rfl, hnil⟩ := hc
    cases hlast : ds.getLast? with
    | none => rw [List.getLast?_eq_none_iff.1 hlast]
    | some e =>
      have hblank := visible_eq_nil_iff.1 hnil e (List.mem_of_getLast? hlast)
      have he := h.last e (by rw [hg, List.getLast?_cons, hlast]; rfl)
      rw [hblank] at he
      cases he

/-- Names with a single mark are a single name, which is this mark. -/
theorem eq_singleton_of_marks {c : Char} (h : ∀ g ∈ gs, IsName g)
    (hc : gs.flatMap (visible ·.toList) = [c]) : gs = [.singleton c] := by
  cases gs with
  | nil => cases hc
  | cons g gs =>
    obtain ⟨hg, hgs⟩ := List.forall_mem_cons.1 h
    rw [List.flatMap_cons] at hc
    rcases List.append_eq_singleton_iff.1 hc with ⟨hnil, -⟩ | ⟨hsingle, hnil⟩
    · exact absurd hnil hg.visible_ne_nil
    · have hrest : gs = [] := by
        refine List.eq_nil_iff_forall_not_mem.2 fun g' hg' => ?_
        exact (hgs g' hg').visible_ne_nil (List.flatMap_eq_nil_iff.1 hnil g' hg')
      rw [hrest, List.singleton_inj, ← String.toList_inj, hg.eq_singleton hsingle,
        String.toList_singleton]

/-- The star alone is read from a text whose only mark is a star. -/
theorem groups_eq_star_iff : groups text = ["*"] ↔ marks text.toList = ['*'] := by
  rw [← flatMap_visible_groups]
  constructor
  · intro h
    rw [h]
    decide
  · exact eq_singleton_of_marks fun g hg => isName_of_mem_groups hg

/-! ## Directives -/

/-- A list comes from a text that is not the star. -/
theorem ofFlag_eq_only_iff : ofFlag flag = .only gs ↔
    gs ≠ [] ∧ ∃ text, flag = some (some text) ∧ text ≠ "*" ∧ groups text = gs := by
  rcases flag with _ | _ | text
  · simp [ofFlag]
  · simp [ofFlag]
  · by_cases hstar : text = "*"
    · simp [ofFlag, hstar]
    · cases hgroups : groups text with
      | nil => simp [ofFlag, hstar, hgroups, eq_comm]
      | cons g gs' =>
        simp only [ofFlag, if_neg hstar, hgroups, only.injEq, Option.some.injEq]
        constructor
        · rintro rfl
          exact ⟨List.cons_ne_nil g gs', text, rfl, hstar, hgroups⟩
        · rintro ⟨-, _, rfl, -, hgs⟩
          exact hgroups.symm.trans hgs

/-- What is expected of a directive: its groups are names, it can be read back from its value, and
only all groups have the star for their value. -/
structure IsCanonical (d : SkipDrain) : Prop where
  names : ∀ gs, d = .only gs → gs ≠ [] ∧ ∀ g ∈ gs, IsName g
  read_back : ofFlag (d.queryValue?.map some) = d
  star : ∀ gs, d = .only gs → d.queryValue? ≠ some "*"

/-- A flag that lists groups lists some, and each of them is a name. -/
theorem names_of_ofFlag (h : ofFlag flag = .only gs) : gs ≠ [] ∧ ∀ g ∈ gs, IsName g := by
  obtain ⟨hne, text, -, -, rfl⟩ := ofFlag_eq_only_iff.1 h
  exact ⟨hne, fun g hg => isName_of_mem_groups hg⟩

/-- A list of names other than the star alone is read back from its value. -/
theorem ofFlag_queryValue?_only (hne : gs ≠ []) (h : ∀ g ∈ gs, IsName g) (hstar : gs ≠ ["*"]) :
    ofFlag ((only gs).queryValue?.map some) = .only gs := by
  refine ofFlag_eq_only_iff.2 ⟨hne, ",".intercalate gs, rfl, ?_, groups_intercalate hne h⟩
  rwa [ne_eq, intercalate_eq_star_iff hne h]

/-- What a flag means is canonical unless it is the list of the star. -/
theorem isCanonical_ofFlag_of_ne (h : ofFlag flag ≠ .only ["*"]) :
    (ofFlag flag).IsCanonical := by
  cases hd : ofFlag flag with
  | disabled => exact ⟨nofun, rfl, nofun⟩
  | all => exact ⟨nofun, rfl, nofun⟩
  | only gs =>
    obtain ⟨hne, hnames⟩ := names_of_ofFlag hd
    have hstar : gs ≠ ["*"] := by
      rintro rfl
      exact h hd
    refine ⟨?_, ofFlag_queryValue?_only hne hnames hstar, ?_⟩
    · rintro _ ⟨⟩
      exact ⟨hne, hnames⟩
    · rintro _ ⟨⟩ hvalue
      exact hstar ((intercalate_eq_star_iff hne hnames).1 (Option.some.inj hvalue))

/-- The list of the star alone has the value of all groups. -/
theorem not_isCanonical_only_star : ¬(only ["*"]).IsCanonical :=
  fun h => h.star _ rfl rfl

/-- A flag that is a star with commas or blanks beside it. -/
def IsPaddedStar (flag : Option (Option String)) : Prop :=
  ∃ text, flag = some (some text) ∧ text ≠ "*" ∧ marks text.toList = ['*']

/-- A flag means the list of the star exactly if it is a padded star. -/
theorem ofFlag_eq_only_star_iff : ofFlag flag = .only ["*"] ↔ IsPaddedStar flag := by
  rw [ofFlag_eq_only_iff, IsPaddedStar]
  simp only [groups_eq_star_iff]
  exact and_iff_right (List.cons_ne_nil _ _)

/-- If a flag is read as a list of groups, there are some, and each is a name without blanks at its
ends and without a comma. The directive of a flag can be read back from its value, and no list has
the value that stands for all groups, exactly unless the flag is a star with commas or blanks beside
it. Such a flag is read as the list of the star alone, which is sent as the star for all groups. -/
theorem isCanonical_ofFlag_iff (flag : Option (Option String)) :
    (∀ gs, ofFlag flag = .only gs → gs ≠ [] ∧ ∀ g ∈ gs, IsName g) ∧
      ((ofFlag flag).IsCanonical ↔ ¬IsPaddedStar flag) ∧
      (IsPaddedStar flag → ofFlag flag = .only ["*"] ∧ (ofFlag flag).queryValue? = some "*" ∧
        ofFlag ((ofFlag flag).queryValue?.map some) = .all) := by
  refine ⟨fun gs => names_of_ofFlag, ?_, fun h => ?_⟩
  · rw [← ofFlag_eq_only_star_iff]
    constructor
    · intro hcanonical hstar
      rw [hstar] at hcanonical
      exact not_isCanonical_only_star hcanonical
    · exact isCanonical_ofFlag_of_ne
  · rw [ofFlag_eq_only_star_iff.2 h]
    exact ⟨rfl, rfl, rfl⟩

/-- With a blank before it, the star is no longer read as all groups, but is sent as if it were. -/
theorem not_isCanonical_blank_star : ¬(ofFlag (some (some " *"))).IsCanonical := by
  have hlist : ofFlag (some (some " *")) = .only ["*"] := by decide +kernel
  rw [hlist]
  exact not_isCanonical_only_star

end Rollout.SkipDrain
