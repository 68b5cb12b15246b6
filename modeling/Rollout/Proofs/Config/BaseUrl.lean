import Mathlib.Data.List.DropRight
import Rollout.Config
import Rollout.Proofs.Text.Trimming

/-!
# The address of the director

The address of the director is what is left of the configured one without the blanks around it and
then without the slashes at its end (`Leaves`). It is in normal form (`IsNormalUrl`), and is left as
it is when it is configured itself (`baseUrl_self_iff`), unless the slashes have covered that there
is nothing else or that blanks stand before them (`IsSpoiled`). The main statement is
`baseUrl_leaves`.
-/

namespace Rollout.DirectorConfig

open Text (isBlank Trims)

variable {c : DirectorConfig} {u : String} {e : ConfigError} {cs inner rest : List Char}

/-! ## Slashes at the end -/

/-- `rest` is what is left of a text without the slashes at its end. -/
structure Unslashed (cs rest : List Char) : Prop where
  spelled : ∃ slashes, cs = rest ++ slashes ∧ ∀ x ∈ slashes, x = '/'
  last : ∀ x ∈ rest.getLast?, x ≠ '/'

/-- What is left once the slashes at the end are dropped. -/
theorem unslashed_rdropWhile (cs : List Char) : Unslashed cs (cs.rdropWhile (· = '/')) where
  spelled := by
    refine ⟨cs.rtakeWhile (· = '/'), List.rdropWhile_append_rtakeWhile.symm, fun x hx => ?_⟩
    simpa using List.mem_rtakeWhile_imp hx
  last x hx := by
    obtain ⟨hne, rfl⟩ := List.mem_getLast?_eq_getLast hx
    simpa using List.rdropWhile_last_not _ _ hne

/-- Only one text is left without the slashes at the end. -/
theorem unslashed_iff : Unslashed cs rest ↔ cs.rdropWhile (· = '/') = rest := by
  constructor
  · rintro ⟨⟨slashes, rfl, hslashes⟩, hlast⟩
    have hrest : rest.rdropWhile (· = '/') = rest := by
      refine List.rdropWhile_eq_self_iff.2 fun hne => ?_
      simpa using hlast _ (List.getLast?_eq_some_getLast hne)
    have hdrop : ∀ x ∈ slashes.reverse, decide (x = '/') = true := by
      intro x hx
      simpa using hslashes x (List.mem_reverse.1 hx)
    rw [List.rdropWhile, List.reverse_append, List.dropWhile_append_of_pos hdrop]
    exact hrest
  · rintro rfl
    exact unslashed_rdropWhile cs

/-- `rest` is what is left of an address without the blanks around it and then without the slashes
at its end. -/
def Leaves (cs rest : List Char) : Prop := ∃ inner, Trims cs inner ∧ Unslashed inner rest

/-- Only one text is left without the blanks and then the slashes. -/
theorem leaves_iff : Leaves cs rest ↔ (Text.trimChars cs).rdropWhile (· = '/') = rest := by
  unfold Leaves
  simp only [Text.trims_iff, unslashed_iff, exists_eq_left']

/-- Something is left between the blanks unless there is nothing but blanks. -/
theorem trim_eq_empty_iff {url : String} :
    Text.trim url = "" ↔ ∀ x ∈ url.toList, isBlank x = true := by
  rw [Text.trim_eq_iff]
  constructor
  · intro h
    exact h.eq_nil_iff.1 rfl
  · intro h
    have htrims : Trims url.toList (Text.trim url).toList := Text.trim_eq_iff.1 rfl
    rwa [htrims.eq_nil_iff.2 h] at htrims

/-! ## Addresses -/

/-- Without a configured address there is none to use. -/
theorem baseUrl_of_none (h : c.url = none) :
    c.baseUrl = .error (.missingField "director.url (or DIRECTOR_URL)") := by
  rw [baseUrl, h]
  rfl

/-- A blank address counts as none. -/
theorem baseUrl_of_blank {url : String} (h : c.url = some url)
    (hblank : ∀ x ∈ url.toList, isBlank x = true) :
    c.baseUrl = .error (.missingField "director.url (or DIRECTOR_URL)") := by
  rw [baseUrl, h, Option.map_some, trim_eq_empty_iff.2 hblank]
  rfl

/-- An address that is not blank is trimmed and loses the slashes at its end. -/
theorem baseUrl_of_not_blank {url : String} (h : c.url = some url)
    (hblank : ¬∀ x ∈ url.toList, isBlank x = true) :
    c.baseUrl = .ok (dropTrailingSlashes (Text.trim url)) := by
  have hne : Text.trim url ≠ "" := mt trim_eq_empty_iff.1 hblank
  rw [baseUrl, h, Option.map_some, Option.filter_some_pos (by simpa using hne)]

/-- An address that is trimmed and loses its slashes is what `Leaves` says. -/
theorem dropTrailingSlashes_trim_eq_iff {url : String} :
    dropTrailingSlashes (Text.trim url) = u ↔ Leaves url.toList u.toList := by
  rw [leaves_iff, ← String.toList_inj, dropTrailingSlashes, Text.trim]
  simp only [String.toList_ofList]
  rfl

/-- The address is what is left of the configured one, if that does not hold blanks alone. -/
theorem baseUrl_eq_ok_iff : c.baseUrl = .ok u ↔ ∃ url, c.url = some url ∧
    Leaves url.toList u.toList ∧ ¬∀ x ∈ url.toList, isBlank x = true := by
  constructor
  · intro h
    cases hurl : c.url with
    | none => cases (baseUrl_of_none hurl).symm.trans h
    | some url =>
      by_cases hblank : ∀ x ∈ url.toList, isBlank x = true
      · cases (baseUrl_of_blank hurl hblank).symm.trans h
      · have hok := Except.ok.inj ((baseUrl_of_not_blank hurl hblank).symm.trans h)
        exact ⟨url, rfl, dropTrailingSlashes_trim_eq_iff.1 hok, hblank⟩
  · rintro ⟨url, hurl, hleaves, hblank⟩
    rw [baseUrl_of_not_blank hurl hblank, dropTrailingSlashes_trim_eq_iff.2 hleaves]

/-- The address is missing if none is configured or one of blanks alone. -/
theorem baseUrl_eq_error_iff : c.baseUrl = .error e ↔
    e = .missingField "director.url (or DIRECTOR_URL)" ∧
      ∀ url, c.url = some url → ∀ x ∈ url.toList, isBlank x = true := by
  constructor
  · intro h
    cases hurl : c.url with
    | none => exact ⟨(Except.error.inj ((baseUrl_of_none hurl).symm.trans h)).symm, nofun⟩
    | some url =>
      by_cases hblank : ∀ x ∈ url.toList, isBlank x = true
      · refine ⟨(Except.error.inj ((baseUrl_of_blank hurl hblank).symm.trans h)).symm, ?_⟩
        rintro _ ⟨⟩
        exact hblank
      · cases (baseUrl_of_not_blank hurl hblank).symm.trans h
  · rintro ⟨rfl, hblank⟩
    cases hurl : c.url with
    | none => exact baseUrl_of_none hurl
    | some url => exact baseUrl_of_blank hurl (hblank url hurl)

/-! ## Normal form -/

/-- An address in normal form. -/
structure IsNormalUrl (u : String) : Prop where
  ne_empty : u ≠ ""
  first : ∀ x ∈ u.toList.head?, isBlank x = false
  last : ∀ x ∈ u.toList.getLast?, isBlank x = false
  no_slash : ∀ x ∈ u.toList.getLast?, x ≠ '/'

/-- What is left of an address neither begins with a blank nor ends with a slash. -/
theorem Leaves.ends (h : Leaves cs rest) :
    (∀ x ∈ rest.head?, isBlank x = false) ∧ ∀ x ∈ rest.getLast?, x ≠ '/' := by
  obtain ⟨inner, htrims, ⟨slashes, rfl, -⟩, hlast⟩ := h
  refine ⟨fun x hx => htrims.first x ?_, hlast⟩
  rw [List.head?_append, Option.mem_def.1 hx]
  rfl

/-- Just an address in normal form is left as it is. -/
theorem leaves_self_iff : Leaves u.toList u.toList ∧ (¬∀ x ∈ u.toList, isBlank x = true) ↔
    IsNormalUrl u := by
  constructor
  · rintro ⟨hleaves, hblank⟩
    obtain ⟨hfirst, hslash⟩ := hleaves.ends
    obtain ⟨inner, htrims, ⟨slashes, rfl, -⟩, -⟩ := hleaves
    obtain ⟨before, after, hspelled, -, -⟩ := htrims.spelled
    have hlength := congrArg List.length hspelled
    have hslashes : slashes = [] := by
      refine List.eq_nil_of_length_eq_zero ?_
      simp only [List.length_append] at hlength
      omega
    rw [hslashes, List.append_nil] at htrims
    refine ⟨?_, hfirst, htrims.last, hslash⟩
    rintro rfl
    exact hblank (List.forall_mem_nil _)
  · rintro ⟨hne, hfirst, hlast, hslash⟩
    have htrims : Trims u.toList u.toList := Text.trims_self hfirst hlast
    refine ⟨⟨u.toList, htrims, ⟨[], by simp, List.forall_mem_nil _⟩, hslash⟩, ?_⟩
    rw [← htrims.eq_nil_iff, String.toList_eq_nil_iff]
    exact hne

/-- An address is used as it is exactly if it is in normal form. -/
theorem baseUrl_self_iff : { c with url := some u }.baseUrl = .ok u ↔ IsNormalUrl u := by
  rw [baseUrl_eq_ok_iff, ← leaves_self_iff]
  simp only [Option.some.injEq, exists_eq_left']

/-- What is expected of an address: it is in normal form, it is left as it is when it is configured
itself, and it is missing exactly if nothing is left of the configured one. -/
structure IsNormalised (c : DirectorConfig) : Prop where
  normal : ∀ u, c.baseUrl = .ok u → IsNormalUrl u ∧ { c with url := some u }.baseUrl = .ok u
  missing : (∃ field, c.baseUrl = .error (.missingField field)) ↔
    ∀ url, c.url = some url → Leaves url.toList []

/-- Nothing is left of blanks. -/
theorem leaves_nil_of_blank (h : ∀ x ∈ cs, isBlank x = true) : Leaves cs [] :=
  ⟨[], ⟨⟨cs, [], by simp, h, List.forall_mem_nil _⟩, nofun, nofun⟩,
    ⟨[], rfl, List.forall_mem_nil _⟩, nofun⟩

/-- An address is as expected exactly if what it comes to is not empty and does not end with a
blank. -/
theorem isNormalised_iff : c.IsNormalised ↔ ∀ u, c.baseUrl = .ok u →
    u ≠ "" ∧ ∀ x ∈ u.toList.getLast?, isBlank x = false := by
  constructor
  · intro h u hok
    obtain ⟨hnormal, -⟩ := h.normal u hok
    exact ⟨hnormal.ne_empty, hnormal.last⟩
  · intro h
    refine ⟨fun u hok => ?_, ?_, fun hnil => ?_⟩
    · obtain ⟨url, -, hleaves, -⟩ := baseUrl_eq_ok_iff.1 hok
      obtain ⟨hne, hlast⟩ := h u hok
      obtain ⟨hfirst, hslash⟩ := hleaves.ends
      have hnormal : IsNormalUrl u := ⟨hne, hfirst, hlast, hslash⟩
      exact ⟨hnormal, baseUrl_self_iff.2 hnormal⟩
    · rintro ⟨field, herror⟩ url hurl
      exact leaves_nil_of_blank ((baseUrl_eq_error_iff.1 herror).2 url hurl)
    · cases hresult : c.baseUrl with
      | error e => exact ⟨_, by rw [(baseUrl_eq_error_iff.1 hresult).1]⟩
      | ok u =>
        -- what is left of the configured address is the address, which is not empty
        obtain ⟨url, hurl, hleaves, -⟩ := baseUrl_eq_ok_iff.1 hresult
        have hempty : u.toList = [] :=
          (leaves_iff.1 hleaves).symm.trans (leaves_iff.1 (hnil url hurl))
        exact absurd (String.toList_eq_nil_iff.1 hempty) (h u hresult).1

/-- A configured address that is spoiled by the slashes at its end: without them nothing is left of
it, or it ends with a blank. -/
def IsSpoiled (c : DirectorConfig) : Prop :=
  ∃ url inner rest, c.url = some url ∧ Trims url.toList inner ∧ inner ≠ [] ∧
    Unslashed inner rest ∧ (rest = [] ∨ ∃ x ∈ rest.getLast?, isBlank x = true)

/-- An address is spoiled exactly if it comes to one that is empty or ends with a blank. -/
theorem isSpoiled_iff : c.IsSpoiled ↔ ∃ u, c.baseUrl = .ok u ∧
    (u = "" ∨ ∃ x ∈ u.toList.getLast?, isBlank x = true) := by
  constructor
  · rintro ⟨url, inner, rest, hurl, htrims, hinner, hrest, hspoiled⟩
    obtain ⟨u, rfl⟩ : ∃ u : String, u.toList = rest := ⟨.ofList rest, String.toList_ofList⟩
    refine ⟨u, baseUrl_eq_ok_iff.2 ⟨url, hurl, ⟨inner, htrims, hrest⟩, ?_⟩, ?_⟩
    · rwa [← htrims.eq_nil_iff]
    · rwa [← String.toList_eq_nil_iff]
  · rintro ⟨u, hok, hspoiled⟩
    obtain ⟨url, hurl, ⟨inner, htrims, hrest⟩, hblank⟩ := baseUrl_eq_ok_iff.1 hok
    refine ⟨url, inner, u.toList, hurl, htrims, mt htrims.eq_nil_iff.1 hblank, hrest, ?_⟩
    rwa [String.toList_eq_nil_iff]

/-- The addresses that are spoiled are those that are not as expected. -/
theorem isNormalised_iff_not_isSpoiled : c.IsNormalised ↔ ¬c.IsSpoiled := by
  rw [isNormalised_iff, isSpoiled_iff]
  push Not
  simp only [ne_eq, Bool.not_eq_true]

/-- The address of the director is missing exactly if none is configured or one of blanks alone.
Else it is what is left of the configured address without the blanks around it and then without the
slashes at its end. It does not begin with a blank or end with a slash, and it is left as it is when
it is configured itself exactly if it is in normal form. All addresses are in normal form, and one
of which nothing is left counts as missing, exactly unless the configured address is spoiled by the
slashes at its end: one of slashes alone is not missing but empty, and blanks in front of the
slashes are kept. -/
theorem baseUrl_leaves (c : DirectorConfig) :
    (∀ e, c.baseUrl = .error e ↔ e = .missingField "director.url (or DIRECTOR_URL)" ∧
        ∀ url, c.url = some url → ∀ x ∈ url.toList, isBlank x = true) ∧
      (∀ u, c.baseUrl = .ok u ↔ ∃ url, c.url = some url ∧ Leaves url.toList u.toList ∧
        ¬∀ x ∈ url.toList, isBlank x = true) ∧
      (∀ u, c.baseUrl = .ok u → (∀ x ∈ u.toList.head?, isBlank x = false) ∧
        (∀ x ∈ u.toList.getLast?, x ≠ '/') ∧
        ({ c with url := some u }.baseUrl = .ok u ↔ IsNormalUrl u)) ∧
      (c.IsNormalised ↔ ¬c.IsSpoiled) := by
  refine ⟨fun e => baseUrl_eq_error_iff, fun u => baseUrl_eq_ok_iff, fun u hok => ?_,
    isNormalised_iff_not_isSpoiled⟩
  obtain ⟨url, -, hleaves, -⟩ := baseUrl_eq_ok_iff.1 hok
  exact ⟨hleaves.ends.1, hleaves.ends.2, baseUrl_self_iff⟩

/-- The address of slashes alone is empty, and a blank in front of a slash stays at the end. -/
theorem not_isNormalised_slashes :
    ¬({ url := some "///" } : DirectorConfig).IsNormalised ∧
      ¬({ url := some "http://director /" } : DirectorConfig).IsNormalised := by
  have hslashes : ({ url := some "///" } : DirectorConfig).baseUrl = .ok "" := by
    rfl
  have hblank : ({ url := some "http://director /" } : DirectorConfig).baseUrl =
      .ok "http://director " := by
    rfl
  constructor
  · intro h
    exact (h.normal _ hslashes).1.ne_empty rfl
  · intro h
    have hlast := (h.normal _ hblank).1.last ' ' (by decide)
    exact absurd hlast (by decide)

end Rollout.DirectorConfig
