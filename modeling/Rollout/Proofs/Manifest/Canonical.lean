import Rollout.Interpolation
import Rollout.Proofs.Manifest.Rereading
import Rollout.Proofs.Substitution.Identity

/-!
# Manifests without placeholders

Interpolation writes a manifest without placeholders in canonical form. What is read from it then is
what has been read before, except that a scalar that stands for a null, a truth value or a number
has its canonical text (`Manifest.retold_of_interpolate`): names, checksums and addresses are source
texts, so only those that are strings as values are safe (`Manifest.GivesTexts`). An empty node for
the releases does not survive at all (`Manifest.not_readsAlike_samples`), nor does a tag with a
comma or a bracket (`Manifest.not_readsAlike_of_tag`).
-/

namespace Rollout

open Yaml

/-! ## Texts that stay the same -/

/-- What a value has under a name is a string, if it has anything there. -/
def Yaml.Value.GivesText (name : String) (v : Value) : Prop :=
  ∀ w, v.member? name = some w → ∃ t, w.untagged = .string t

/-- A field that is a string is retold as it is. -/
theorem Yaml.RetoldField.eq {s s' : Option String} {v : Option Value} (h : RetoldField s v s')
    (hv : ∀ w, v = some w → ∃ t, w.untagged = .string t) : s' = s := by
  cases h with
  | missing => rfl
  | @given s s' w h =>
    obtain ⟨t, ht⟩ := hv w rfl
    rw [(h.eq_of_string ht).1]

/-- A field that is a string, or is not there, is retold as it is. -/
theorem Yaml.RetoldOptional.eq {s s' : Option String} {v : Option Value}
    (h : RetoldOptional s v s') (hv : ∀ w, v = some w → ∃ t, w.untagged = .string t) :
    s' = s := by
  cases h with
  | missing => rfl
  | null =>
    obtain ⟨t, ht⟩ := hv .null rfl
    cases ht
  | @given s s' w h =>
    obtain ⟨t, ht⟩ := hv w rfl
    rw [(h.eq_of_string ht).1]

/-- A release whose fields are strings is retold as it is. -/
theorem Release.Retold.eq {r r' : Release} {v : Value} (h : r.Retold v r')
    (hv : ∀ name ∈ ["name", "sha1", "url"], v.GivesText name) : r' = r := by
  obtain ⟨name, sha1, url, version⟩ := r
  obtain ⟨name', sha1', url', version'⟩ := r'
  obtain ⟨hname, hsha1, hurl, hversion⟩ := h
  obtain rfl : name' = name := Option.some.inj (hname.eq (hv "name" (by simp)))
  obtain rfl : sha1' = sha1 := hsha1.eq (hv "sha1" (by simp))
  obtain rfl : url' = url := hurl.eq (hv "url" (by simp))
  obtain rfl : version' = version := hversion
  rfl

namespace Manifest

/-- The name and the releases of a manifest, the value of its document, and a manifest that is read
from what is written for the value. -/
structure Retold (m : Manifest) (v : Value) (m' : Manifest) : Prop where
  name : RetoldField (some m.name) (v.member? "name") (some m'.name)
  releases : RetoldReleases m.releases (v.member? "releases") m'.releases

/-- The name of a manifest and the names, checksums and addresses of its releases are strings, as
far as they are given. -/
structure GivesTexts (v : Value) : Prop where
  name : v.GivesText "name"
  releases : ∀ w items, v.member? "releases" = some w → w.untagged = .sequence items →
    ∀ item ∈ items, ∀ name ∈ ["name", "sha1", "url"], item.GivesText name

/-- Releases whose fields are strings are retold as they are. -/
theorem RetoldReleases.eq {rs rs' : List Release} {v : Option Value}
    (h : RetoldReleases rs v rs')
    (hv : ∀ w items, v = some w → w.untagged = .sequence items →
      ∀ item ∈ items, ∀ name ∈ ["name", "sha1", "url"], item.GivesText name) : rs' = rs := by
  cases h with
  | missing => rfl
  | @given w items ps hw hps =>
    have hitems := hv w items rfl hw
    clear hv hw
    induction hps with
    | nil => rfl
    | cons hp _ ih =>
      obtain ⟨hitem, hitems⟩ := List.forall_mem_cons.1 hitems
      rw [List.map_cons, List.map_cons, hp.eq hitem, ih hitems]

/-- A manifest whose names, checksums and addresses are strings is retold as it is. -/
theorem Retold.eq {m m' : Manifest} {v : Value} (h : m.Retold v m') (hv : GivesTexts v) :
    m'.name = m.name ∧ m'.releases = m.releases := by
  exact ⟨Option.some.inj (h.name.eq hv.name), h.releases.eq hv.releases⟩

/-! ## Reading after interpolation -/

/-- A manifest without placeholders that is read as a value is written as the same value. -/
theorem write?_of_interpolate {bytes : ByteArray} {vars : Variables} {v : Value} {text : String}
    (hvalue : Reader.value.readBytes bytes = .ok v) (hnames : manifestNames bytes = [])
    (h : interpolate bytes vars = .ok text) : v.write? = some text := by
  rw [manifestNames, hvalue] at hnames
  exact write?_of_evaluateManifest (evaluateManifest_eq_self hvalue hnames vars.value?) h

/-- A manifest without placeholders that is valid is still valid after interpolation, with as many
releases in the same order and with the same versions. Every name, checksum and address is the
canonical text of its value, so it is the same text where the value is a string. The node of the
releases must not be empty, and no tag may have a comma or a bracket. -/
theorem retold_of_interpolate {bytes : ByteArray} {vars : Variables} {m : Manifest} {v : Value}
    {text : String} (hparse : parse bytes = .ok m) (hvalue : Reader.value.readBytes bytes = .ok v)
    (hnames : manifestNames bytes = []) (hinterpolate : interpolate bytes vars = .ok text)
    (hreleases : ∀ w, v.member? "releases" = some w → ∃ items, w.untagged = .sequence items)
    (htags : ∀ tag ∈ v.tags, IsPlainTag tag) :
    ∃ m', parse text.toUTF8 = .ok m' ∧ m.Retold v m' ∧
      (GivesTexts v → m'.name = m.name ∧ m'.releases = m.releases) := by
  have hread := (parse_eq_ok_iff.1 hparse).2
  have hwrite := write?_of_interpolate hvalue hnames hinterpolate
  obtain ⟨⟨name, releases⟩, ⟨hname, hreleases⟩, hread'⟩ :=
    carries_reader.readBytes hread hvalue htags hreleases hwrite
  have hretold : m.Retold v ⟨text.toUTF8, name, releases⟩ := ⟨hname, hreleases⟩
  exact ⟨_, parse_eq_ok_iff.2 ⟨rfl, hread'⟩, hretold, fun hv => hretold.eq hv⟩

/-- The value is a list. -/
def isSequence : Value → Bool
  | .sequence _ => true
  | _ => false

/-- A manifest with a checksum that is a number as a value. -/
def spelledSample : ByteArray :=
  "name: web\nreleases:\n- \x7bname: '1.10', version: 1.10, sha1: 0x1F, url: ~\x7d\n".toUTF8

/-- What is read from the sample, and what its interpolation is read as. -/
theorem retold_of_interpolate_sample :
    ∃ v m', Reader.value.readBytes spelledSample = .ok v ∧
      interpolate spelledSample ⟨[], []⟩ = .ok
        "name: web\nreleases:\n- name: '1.10'\n  version: 1.1\n  sha1: 31\n  url: null\n" ∧
      (⟨spelledSample, "web", [⟨"1.10", some "0x1F", none, "1.1"⟩]⟩ : Manifest).Retold v m' := by
  have hread : (reader.readBytes spelledSample).toOption =
      some ("web", [⟨"1.10", some "0x1F", none, "1.1"⟩]) := by decide +kernel
  have htext : (interpolate spelledSample ⟨[], []⟩).toOption = some
      "name: web\nreleases:\n- name: '1.10'\n  version: 1.1\n  sha1: 31\n  url: null\n" := by
    decide +kernel
  have hvalue : (Reader.value.readBytes spelledSample).toOption.any (fun v =>
      v.tags.isEmpty && (v.member? "releases").any fun w => isSequence w.untagged) = true := by
    decide +kernel
  rw [toOption_eq_some_iff] at hread htext
  cases hv : Reader.value.readBytes spelledSample with
  | error e =>
    rw [hv] at hvalue
    cases hvalue
  | ok v =>
    rw [hv] at hvalue
    obtain ⟨htags, hreleases⟩ := (Bool.and_eq_true _ _).mp hvalue
    have hreleases' : ∀ w, v.member? "releases" = some w →
        ∃ items, w.untagged = .sequence items := by
      intro w hw
      rw [hw, Option.any_some] at hreleases
      cases hitems : w.untagged with
      | sequence items => exact ⟨items, rfl⟩
      | _ =>
        rw [hitems] at hreleases
        cases hreleases
    have htags' : ∀ tag ∈ v.tags, IsPlainTag tag := by
      rw [List.isEmpty_iff.1 htags]
      exact List.forall_mem_nil _
    obtain ⟨m', -, hretold, -⟩ := retold_of_interpolate
      (m := ⟨spelledSample, "web", [⟨"1.10", some "0x1F", none, "1.1"⟩]⟩)
      (parse_eq_ok_iff.2 ⟨rfl, hread⟩) hv (by decide +kernel) htext hreleases' htags'
    exact ⟨v, m', rfl, htext, hretold⟩

/-! ## What does not stay the same -/

/-- Interpolation without placeholders changes nothing in what is read from the manifest. -/
def ReadsAlike (bytes : ByteArray) (vars : Variables) : Prop :=
  ∀ m text, manifestNames bytes = [] → parse bytes = .ok m → interpolate bytes vars = .ok text →
    ∃ m', parse text.toUTF8 = .ok m' ∧ m'.name = m.name ∧ m'.releases = m.releases

/-- It takes one manifest that is read in another way after interpolation. -/
theorem not_readsAlike {bytes : ByteArray} {vars : Variables} {name text : String}
    {releases : List Release} (hnames : manifestNames bytes = [])
    (hread : (reader.readBytes bytes).toOption = some (name, releases))
    (htext : (interpolate bytes vars).toOption = some text)
    (hread' : (reader.readBytes text.toUTF8).toOption ≠ some (name, releases)) :
    ¬ ReadsAlike bytes vars := by
  intro h
  rw [toOption_eq_some_iff] at hread htext
  have hparse : parse bytes = .ok ⟨bytes, name, releases⟩ := parse_eq_ok_iff.2 ⟨rfl, hread⟩
  obtain ⟨m', hparse', hname, hreleases⟩ := h _ _ hnames hparse htext
  have hread'' := (parse_eq_ok_iff.1 hparse').2
  rw [hname, hreleases] at hread''
  exact hread' (toOption_eq_some_iff.2 hread'')

/-- A name that is a number as a value gets the canonical text of the number, and an empty node for
the releases becomes a null, which is no list. -/
theorem not_readsAlike_samples :
    ¬ ReadsAlike "name: 0x10\n".toUTF8 ⟨[], []⟩ ∧
      ¬ ReadsAlike "name: dep\nreleases:\n".toUTF8 ⟨[], []⟩ := by
  refine ⟨?_, ?_⟩
  · have hread : (reader.readBytes "name: 0x10\n".toUTF8).toOption = some ("0x10", []) := by
      decide +kernel
    have htext : (interpolate "name: 0x10\n".toUTF8 ⟨[], []⟩).toOption = some "name: 16\n" := by
      decide +kernel
    exact not_readsAlike (by decide +kernel) hread htext (by decide +kernel)
  · have hread : (reader.readBytes "name: dep\nreleases:\n".toUTF8).toOption =
        some ("dep", []) := by decide +kernel
    have htext : (interpolate "name: dep\nreleases:\n".toUTF8 ⟨[], []⟩).toOption =
        some "name: dep\nreleases: null\n" := by decide +kernel
    exact not_readsAlike (by decide +kernel) hread htext (by decide +kernel)

/-- A comma in a tag is written as it stands, and then the tag ends before it. -/
theorem not_readsAlike_of_tag : ¬ ReadsAlike "name: dep\nx: !a%2Cb y\n".toUTF8 ⟨[], []⟩ := by
  have hread : (reader.readBytes "name: dep\nx: !a%2Cb y\n".toUTF8).toOption =
      some ("dep", []) := by decide +kernel
  have htext : (interpolate "name: dep\nx: !a%2Cb y\n".toUTF8 ⟨[], []⟩).toOption =
      some "name: dep\nx: !a,b y\n" := by decide +kernel
  exact not_readsAlike (by decide +kernel) hread htext (by decide +kernel)

end Manifest

end Rollout
