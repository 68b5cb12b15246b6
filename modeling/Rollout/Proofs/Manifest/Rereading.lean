import Rollout.Manifest
import Rollout.Proofs.Yaml.RecordRereading

/-!
# Reading a manifest again

A manifest that has been read as a value and written again declares the same deployment and the same
releases, apart from the spelling of its texts (`Manifest.Retold`).
-/

namespace Rollout

open Yaml

namespace Manifest

/-! ## Releases -/

/-- A version that is read is the text of a value. -/
theorem exists_versionText_of_accepts {d : Document} {depth : Nat} {n : Node Nat} {version : String}
    (h : Reader.Accepts releaseField.versionReader d depth n version) :
    ∃ w, Value.Reads d depth n w ∧ versionText w = .ok version := by
  obtain ⟨path, s, t, h⟩ := h
  obtain ⟨w, s₁, hw, h⟩ := ReadM.bind_eq_ok_iff.1 h
  refine ⟨w, ⟨path, s, s₁, hw⟩, ?_⟩
  cases hversion : versionText w with
  | error cause =>
    rw [hversion] at h
    cases h
  | ok text =>
    rw [hversion] at h
    cases h
    rfl

/-- A version stays the same. -/
theorem carries_version :
    Reader.Carries releaseField.versionReader releaseField.versionReader (fun _ => True)
      fun version _ version' => version' = version := by
  rintro d depth n version v hd h hread hv _
  obtain ⟨w, hw, hversion⟩ := exists_versionText_of_accepts h
  obtain rfl : w = v := hw.unique hread
  have hscalar : ∃ x : Scalar, w = x.toValue := by
    cases w with
    | string text => exact ⟨.text text, rfl⟩
    | number number =>
      cases number with
      | integer i => exact ⟨.integer i, rfl⟩
      | float x => exact ⟨.float x, rfl⟩
    | _ => cases hversion
  obtain ⟨x, rfl⟩ := hscalar
  refine ⟨version, rfl, fun d path s => ?_⟩
  rw [releaseField.versionReader, ReadM.bind_of_eq_ok (Reader.yields_toValue hv depth d path s),
    hversion]
  rfl

/-- The fields of a release, the entries that they come from, and the fields that are read again. -/
structure ReleaseFields.Retold (r : ReleaseFields) (es : Entries) (r' : ReleaseFields) : Prop where
  name : RetoldField r.name (Value.named? "name" es) r'.name
  sha1 : RetoldOptional r.sha1 (Value.named? "sha1" es) r'.sha1
  url : RetoldOptional r.url (Value.named? "url" es) r'.url
  version : r'.version = r.version

/-- The fields of a release that is written again are read as they are retold. -/
theorem carriesFields_release :
    Reader.CarriesFields releaseField ["name", "sha1", "url", "version"] (fun _ _ => True)
      ReleaseFields.Retold where
  isVerbatim := by
    simp only [List.forall_mem_cons]
    refine ⟨?_, ?_, ?_, ?_, fun _ h => nomatch h⟩ <;>
      exact Scalar.isVerbatim_of_eq_none (by decide) (by decide) (by decide) (by decide)
  eq_none_iff {r name} := by
    rw [releaseField.eq_def]
    split <;> simp_all
  skip {r r' es e} h hother := by
    have hkept : ∀ name ∈ ["name", "sha1", "url", "version"],
        Value.named? name (es ++ [e]) = Value.named? name es :=
      fun name hname => Value.named?_append_of_ne (hother name hname)
    exact ⟨(hkept "name" (by simp)).symm ▸ h.name, (hkept "sha1" (by simp)).symm ▸ h.sha1,
      (hkept "url" (by simp)).symm ▸ h.url, h.version⟩
  carries {st st' es name r r' k} h hnew hr hr' hk := by
    have hadded : ∀ value, Value.named? name (es ++ [(k, value)]) = some value :=
      fun value => Value.named?_append_of_eq hk hnew []
    have hname (hne : name ≠ "name") (value : Value) :
        RetoldField st.name (Value.named? "name" (es ++ [(k, value)])) st'.name :=
      (Value.named?_append_of_other hk hne).symm ▸ h.name
    have hsha1 (hne : name ≠ "sha1") (value : Value) :
        RetoldOptional st.sha1 (Value.named? "sha1" (es ++ [(k, value)])) st'.sha1 :=
      (Value.named?_append_of_other hk hne).symm ▸ h.sha1
    have hurl (hne : name ≠ "url") (value : Value) :
        RetoldOptional st.url (Value.named? "url" (es ++ [(k, value)])) st'.url :=
      (Value.named?_append_of_other hk hne).symm ▸ h.url
    rw [releaseField.eq_def] at hr
    split at hr
    · cases hr
      cases hr'
      refine (Reader.carries_text.map _ _).mono (fun _ _ => trivial) ?_
      rintro _ value _ ⟨text, text', htext, rfl, rfl⟩
      exact ⟨(hadded value).symm ▸ .given htext, hsha1 (by decide) value, hurl (by decide) value,
        h.version⟩
    · cases hr
      cases hr'
      refine (Reader.carries_optionalText.map _ _).mono (fun _ _ => trivial) ?_
      rintro _ value _ ⟨text, text', htext, rfl, rfl⟩
      exact ⟨hname (by decide) value, (hadded value).symm ▸ htext, hurl (by decide) value,
        h.version⟩
    · cases hr
      cases hr'
      refine (Reader.carries_optionalText.map _ _).mono (fun _ _ => trivial) ?_
      rintro _ value _ ⟨text, text', htext, rfl, rfl⟩
      exact ⟨hname (by decide) value, hsha1 (by decide) value, (hadded value).symm ▸ htext,
        h.version⟩
    · cases hr
      cases hr'
      refine (carries_version.map _ _).mono (fun _ _ => trivial) ?_
      rintro _ value _ ⟨version, _, rfl, rfl, rfl⟩
      exact ⟨hname (by decide) value, hsha1 (by decide) value, hurl (by decide) value, rfl⟩
    · cases hr

end Manifest

/-- A release, the value that it has been read from, and the release that is read from what is
written for the value. -/
structure Release.Retold (r : Release) (v : Value) (r' : Release) : Prop where
  name : RetoldField (some r.name) (v.member? "name") (some r'.name)
  sha1 : RetoldOptional r.sha1 (v.member? "sha1") r'.sha1
  url : RetoldOptional r.url (v.member? "url") r'.url
  version : r'.version = r.version

namespace Manifest

/-- A field that is required has to be there. -/
theorem required_eq_ok_iff {α : Type} {name : String} {x : Option α} {a : α} :
    Reader.required name x = .ok a ↔ x = some a := by
  cases x <;> simp [Reader.required]

/-- A release that is written again is read as it is retold. -/
theorem carries_release :
    releaseReader.Carries releaseReader (fun _ => True) Release.Retold := by
  rintro d depth n r v hd ⟨path, s, t, h⟩ hread hv _
  obtain ⟨fields, hfields, h⟩ := Reader.refine_eq_ok_iff.1 h
  obtain ⟨name, hname, h⟩ := bind_eq_ok_iff.1 h
  obtain ⟨version, hversion, h⟩ := bind_eq_ok_iff.1 h
  rw [required_eq_ok_iff] at hname hversion
  cases h
  have hinit : ReleaseFields.Retold {} [] {} := ⟨.missing, .missing, .missing, rfl⟩
  rcases carriesFields_release.record _ hinit hd ⟨path, s, t, hfields⟩ hread hv
    (fun _ _ _ => trivial) with rfl | ⟨es, fields', hv, hretold, hyields⟩
  · cases hname
  have hfield := hretold.name
  rw [hname] at hfield
  obtain ⟨name', hname'⟩ := hfield.exists_eq_some
  rw [hname'] at hfield
  refine ⟨⟨name', fields'.sha1, fields'.url, version⟩, ⟨?_, ?_, ?_, rfl⟩, fun d path s => ?_⟩
  · rw [Value.member?_eq hv]
    exact hfield
  · rw [Value.member?_eq hv]
    exact hretold.sha1
  · rw [Value.member?_eq hv]
    exact hretold.url
  · refine Reader.refine_eq_ok_iff.2 ⟨fields', hyields d path s, ?_⟩
    rw [hname', hretold.version, hversion]
    rfl

/-! ## Manifests -/

/-- A list of releases, its value if there is one, and the list that is read again. -/
inductive RetoldReleases : List Release → Option Value → List Release → Prop
  | missing : RetoldReleases [] none []
  | given {v : Value} {items : List Value} {ps : List (Release × Release)}
    (hv : v.untagged = .sequence items)
    (h : List.Forall₂ (fun item p => p.1.Retold item p.2) items ps) :
    RetoldReleases (ps.map Prod.fst) (some v) (ps.map Prod.snd)

/-- The fields of a manifest, the entries that they come from, and the fields that are read
again. -/
structure Fields.Retold (m : Fields) (es : Entries) (m' : Fields) : Prop where
  name : RetoldField m.name (Value.named? "name" es) m'.name
  releases : RetoldReleases m.releases (Value.named? "releases" es) m'.releases

/-- The fields of a manifest that is written again are read as they are retold, if its releases are
a list. -/
theorem carriesFields_manifest :
    Reader.CarriesFields field ["name", "releases"]
      (fun name v => name = "releases" → ∃ items, v.untagged = .sequence items) Fields.Retold where
  isVerbatim := by
    simp only [List.forall_mem_cons]
    refine ⟨?_, ?_, fun _ h => nomatch h⟩ <;>
      exact Scalar.isVerbatim_of_eq_none (by decide) (by decide) (by decide) (by decide)
  eq_none_iff {r name} := by
    rw [field.eq_def]
    split <;> simp_all
  skip {m m' es e} h hother := by
    have hkept : ∀ name ∈ ["name", "releases"],
        Value.named? name (es ++ [e]) = Value.named? name es :=
      fun name hname => Value.named?_append_of_ne (hother name hname)
    exact ⟨(hkept "name" (by simp)).symm ▸ h.name,
      (hkept "releases" (by simp)).symm ▸ h.releases⟩
  carries {st st' es name r r' k} h hnew hr hr' hk := by
    have hadded : ∀ value, Value.named? name (es ++ [(k, value)]) = some value :=
      fun value => Value.named?_append_of_eq hk hnew []
    rw [field.eq_def] at hr
    split at hr
    · cases hr
      cases hr'
      refine (Reader.carries_text.map _ _).mono (fun _ _ => trivial) ?_
      rintro _ value _ ⟨text, text', htext, rfl, rfl⟩
      refine ⟨(hadded value).symm ▸ .given htext, ?_⟩
      rw [Value.named?_append_of_other hk (by decide)]
      exact h.releases
    · cases hr
      cases hr'
      refine (carries_release.sequence.map _ _).mono (fun v hv => ?_) ?_
      · obtain ⟨items, hitems⟩ := hv rfl
        exact ⟨items, hitems, fun _ _ => trivial⟩
      rintro _ value _ ⟨_, _, ⟨items, ps, hitems, rfl, rfl, hps⟩, rfl, rfl⟩
      refine ⟨?_, (hadded value).symm ▸ .given hitems hps⟩
      rw [Value.named?_append_of_other hk (by decide)]
      exact h.name
    · cases hr

/-- A manifest keeps the bytes that it is read from. -/
theorem parse_eq_ok_iff {bytes : ByteArray} {m : Manifest} :
    parse bytes = .ok m ↔ m.bytes = bytes ∧ reader.readBytes bytes = .ok (m.name, m.releases) := by
  obtain ⟨bytes', name, releases⟩ := m
  rw [parse]
  cases reader.readBytes bytes with
  | error e => simp
  | ok result => simp [eq_comm, Prod.ext_iff]

/-- A manifest that is written again is read as it is retold, if its releases are a list. -/
theorem carries_reader :
    reader.Carries reader
      (fun v => ∀ w, v.member? "releases" = some w → ∃ items, w.untagged = .sequence items)
      fun m v m' => RetoldField (some m.1) (v.member? "name") (some m'.1) ∧
        RetoldReleases m.2 (v.member? "releases") m'.2 := by
  rintro d depth n m v hd ⟨path, s, t, h⟩ hread hv hreleases
  obtain ⟨fields, hfields, h⟩ := Reader.refine_eq_ok_iff.1 h
  obtain ⟨name, hname, h⟩ := bind_eq_ok_iff.1 h
  rw [required_eq_ok_iff] at hname
  cases h
  have hinit : Fields.Retold {} [] {} := ⟨.missing, .missing⟩
  rcases carriesFields_manifest.record _ hinit hd ⟨path, s, t, hfields⟩ hread hv
    (fun _ w hw hname => hreleases w (hname ▸ hw)) with rfl | ⟨es, fields', hv, hretold, hyields⟩
  · cases hname
  have hfield := hretold.name
  rw [hname] at hfield
  obtain ⟨name', hname'⟩ := hfield.exists_eq_some
  rw [hname'] at hfield
  refine ⟨(name', fields'.releases), ⟨?_, ?_⟩, fun d path s => ?_⟩
  · rw [Value.member?_eq hv]
    exact hfield
  · rw [Value.member?_eq hv]
    exact hretold.releases
  · refine Reader.refine_eq_ok_iff.2 ⟨fields', hyields d path s, ?_⟩
    rw [hname']
    rfl

end Manifest

end Rollout
