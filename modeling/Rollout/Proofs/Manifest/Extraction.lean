import Rollout.Proofs.Deploy.Execution
import Rollout.Proofs.Manifest.Rereading
import Rollout.Proofs.Yaml.Member

/-!
# The releases of a manifest

What a manifest says, told from its document alone (`Manifest.Says`): its name is the source text
under `name`, and its releases are the items under `releases`, one for each item and in the same
order, each with what the item has under the keys of a release (`Release.Says`). The main statement
is `Manifest.parse_extracts_all_releases`: what is read as a manifest is what its document says, and
one item that is no release (`Release.IsFlawed`) is enough for there to be no manifest at all.
-/

namespace Rollout

open Yaml (Value Node Document Reader ReadM)

/-! ## What a document says -/

/-- A version as a value spells it: a text as it is, a number in canonical form. -/
inductive SpellsVersion : Value → String → Prop
  | text (s : String) : SpellsVersion (.string s) s
  | number (n : Yaml.Number) : SpellsVersion (.number n) n.text

/-- A value that is no version. -/
inductive IsNoVersion : Value → Prop
  | null : IsNoVersion .null
  | bool (b : Bool) : IsNoVersion (.bool b)
  | sequence (items : List Value) : IsNoVersion (.sequence items)
  | mapping (entries : Yaml.Entries) : IsNoVersion (.mapping entries)
  | tagged (tag : String) (v : Value) : IsNoVersion (.tagged tag v)

/-- What an item of a document says about a release. -/
structure Release.Says (d : Document) (item : Node Nat) (r : Release) : Prop where
  name : (d.member? "name" item).bind d.sourceText? = some r.name
  version : ∃ n depth v, d.member? "version" item = some n ∧ Value.Reads d depth n v ∧
    SpellsVersion v r.version
  sha1 : r.sha1 = (d.member? "sha1" item).bind d.optionalText?
  url : r.url = (d.member? "url" item).bind d.optionalText?

/-- An item is no release: it has no name or no version, or a version that is none. -/
inductive Release.IsFlawed (d : Document) (item : Node Nat) : Prop
  | noName (h : d.member? "name" item = none)
  | noVersion (h : d.member? "version" item = none)
  | badVersion {n : Node Nat} {depth : Nat} {v : Value} (h : d.member? "version" item = some n)
    (hread : Value.Reads d depth n v) (hv : IsNoVersion v)

namespace Manifest

/-- The releases that a document lists: one for each item in order, and none if it has no list. -/
inductive Lists (d : Document) : Option (Node Nat) → List Release → Prop
  | missing : Lists d none []
  | items {n : Node Nat} {items : List (Node Nat)} {rs : List Release} (hitems : d.HasItems n items)
    (hreleases : List.Forall₂ (Release.Says d) items rs) : Lists d (some n) rs

/-- What a document has under a key. -/
def member? (d : Document) (key : String) : Option (Node Nat) :=
  d.member? key (d.root.getD .absent)

/-- A manifest is what a document says. -/
structure Says (d : Document) (m : Manifest) : Prop where
  name : (member? d "name").bind d.sourceText? = some m.name
  releases : Lists d (member? d "releases") m.releases

end Manifest

/-! ## Versions -/

/-- A version is the text that its value spells. -/
theorem versionText_eq_ok_iff {v : Value} {s : String} :
    Manifest.versionText v = .ok s ↔ SpellsVersion v s := by
  constructor
  · intro h
    cases v with
    | string s =>
      obtain rfl := Except.ok.inj h
      exact .text s
    | number n =>
      obtain rfl := Except.ok.inj h
      exact .number n
    | _ => cases h
  · intro h
    cases h <;> rfl

/-- What is no version spells none. -/
theorem IsNoVersion.not_spellsVersion {v : Value} {s : String} (h : IsNoVersion v) :
    ¬SpellsVersion v s := by
  intro hs
  cases hs <;> cases h

/-- An item that tells of a release has no flaw, as no node can be read as two values. -/
theorem Release.Says.not_isFlawed {d : Document} {item : Node Nat} {r : Release}
    (h : Release.Says d item r) : ¬Release.IsFlawed d item := by
  obtain ⟨n, depth, v, hmember, hread, hspells⟩ := h.version
  rintro (hnone | hnone | ⟨hmember', hread', hv⟩)
  · have hname := h.name
    rw [hnone] at hname
    cases hname
  · rw [hnone] at hmember
    cases hmember
  · obtain rfl := Option.some.inj (hmember.symm.trans hmember')
    obtain rfl := hread.unique hread'
    exact hv.not_spellsVersion hspells

namespace Manifest

variable {d : Document} {depth : Nat} {n : Node Nat} {key : String}

/-! ## Releases -/

namespace ReleaseFields

/-- An entry changes the field of a release that its key names, and no other. -/
inductive Updates (r : ReleaseFields) : String → ReleaseFields → Prop
  | name (s : Option String) : Updates r "name" { r with name := s }
  | sha1 (s : Option String) : Updates r "sha1" { r with sha1 := s }
  | url (s : Option String) : Updates r "url" { r with url := s }
  | version (s : Option String) : Updates r "version" { r with version := s }

/-- A field that is read replaces what the record has under its name. -/
theorem updates_of_accepts {r result : ReleaseFields} {reader : Reader ReleaseFields}
    (hstep : releaseField r key = some reader) (h : reader.Accepts d depth n result) :
    r.Updates key result := by
  rw [releaseField.eq_def] at hstep
  split at hstep <;> cases hstep <;> obtain ⟨s, -, rfl⟩ := h.of_map
  · exact .name s
  · exact .sha1 s
  · exact .url s
  · exact .version s

/-- The name of a release is the source text of the member with this name. -/
theorem takesMember_name :
    Reader.TakesMember d releaseField "name" name fun n s => s = d.sourceText? n where
  isSome _ := rfl
  own hstep h := by
    cases hstep
    obtain ⟨s, hs, rfl⟩ := h.of_map
    exact hs.sourceText?.symm
  other hne hstep h := by
    cases updates_of_accepts hstep h with
    | name => exact absurd rfl hne
    | _ => rfl

/-- The checksum of a release is the source text of its member, unless that is null. -/
theorem takesMember_sha1 (hd : d.IsTied) :
    Reader.TakesMember d releaseField "sha1" sha1 fun n s => s = d.optionalText? n where
  isSome _ := rfl
  own hstep h := by
    cases hstep
    obtain ⟨s, hs, rfl⟩ := h.of_map
    exact hs.optionalText? hd
  other hne hstep h := by
    cases updates_of_accepts hstep h with
    | sha1 => exact absurd rfl hne
    | _ => rfl

/-- The address of a release is the source text of its member, unless that is null. -/
theorem takesMember_url (hd : d.IsTied) :
    Reader.TakesMember d releaseField "url" url fun n s => s = d.optionalText? n where
  isSome _ := rfl
  own hstep h := by
    cases hstep
    obtain ⟨s, hs, rfl⟩ := h.of_map
    exact hs.optionalText? hd
  other hne hstep h := by
    cases updates_of_accepts hstep h with
    | url => exact absurd rfl hne
    | _ => rfl

/-- The version of a release is what the value of its member spells. -/
theorem takesMember_version :
    Reader.TakesMember d releaseField "version" version fun n s =>
      ∃ depth v text, s = some text ∧ Value.Reads d depth n v ∧ SpellsVersion v text where
  isSome _ := rfl
  own hstep h := by
    cases hstep
    obtain ⟨s, hs, rfl⟩ := h.of_map
    obtain ⟨v, hread, hversion⟩ := exists_versionText_of_accepts hs
    exact ⟨_, v, s, rfl, hread, versionText_eq_ok_iff.1 hversion⟩
  other hne hstep h := by
    cases updates_of_accepts hstep h with
    | version => exact absurd rfl hne
    | _ => rfl

end ReleaseFields

/-- A release that is read from an item is what the item says. -/
theorem says_of_releaseReader (hd : d.IsTied) {r : Release}
    (h : releaseReader.Accepts d depth n r) : Release.Says d n r := by
  obtain ⟨path, t, u, h⟩ := h
  obtain ⟨fields, hfields, h⟩ := Reader.refine_eq_ok_iff.1 h
  obtain ⟨name, hname, h⟩ := bind_eq_ok_iff.1 h
  obtain ⟨version, hversion, h⟩ := bind_eq_ok_iff.1 h
  rw [required_eq_ok_iff] at hname hversion
  obtain rfl := Except.ok.inj h
  have hfields : Reader.Accepts (Reader.record _ {} releaseField) d depth n fields :=
    ⟨path, t, u, hfields⟩
  refine ⟨?_, ?_, ?_, ?_⟩
  · exact (ReleaseFields.takesMember_name.view_eq_bind rfl hfields).symm.trans hname
  · rcases ReleaseFields.takesMember_version.record_cases hfields with
      ⟨-, hview⟩ | ⟨m, hm, depth', v, text, hview, hread, hspells⟩
    · rw [hversion] at hview
      cases hview
    · rw [hversion] at hview
      obtain rfl := Option.some.inj hview
      exact ⟨m, depth', v, hm, hread, hspells⟩
  · exact (ReleaseFields.takesMember_sha1 hd).view_eq_bind rfl hfields
  · exact (ReleaseFields.takesMember_url hd).view_eq_bind rfl hfields

/-! ## Manifests -/

namespace Fields

/-- An entry changes the field of a manifest that its key names, and no other. -/
inductive Updates (m : Fields) : String → Fields → Prop
  | name (s : Option String) : Updates m "name" { m with name := s }
  | releases (rs : List Release) : Updates m "releases" { m with releases := rs }

/-- A field that is read replaces what the manifest has under its name. -/
theorem updates_of_accepts {m result : Fields} {r : Reader Fields} (hstep : field m key = some r)
    (h : r.Accepts d depth n result) : m.Updates key result := by
  rw [field.eq_def] at hstep
  split at hstep <;> cases hstep <;> obtain ⟨a, -, rfl⟩ := h.of_map
  · exact .name a
  · exact .releases a

/-- The name of a manifest is the source text of the member with this name. -/
theorem takesMember_name :
    Reader.TakesMember d field "name" Fields.name fun n s => s = d.sourceText? n where
  isSome _ := rfl
  own hstep h := by
    cases hstep
    obtain ⟨s, hs, rfl⟩ := h.of_map
    exact hs.sourceText?.symm
  other hne hstep h := by
    cases updates_of_accepts hstep h with
    | name => exact absurd rfl hne
    | releases => rfl

/-- The releases of a manifest are those that the member with this name lists. -/
theorem takesMember_releases (hd : d.IsTied) :
    Reader.TakesMember d field "releases" Fields.releases fun n rs => Lists d (some n) rs where
  isSome _ := rfl
  own hstep h := by
    cases hstep
    obtain ⟨rs, hrs, rfl⟩ := h.of_map
    obtain ⟨items, depth', hitems, hreleases⟩ := hrs.exists_hasItems
    exact .items hitems (hreleases.imp fun _ _ h => says_of_releaseReader hd h)
  other hne hstep h := by
    cases updates_of_accepts hstep h with
    | name => rfl
    | releases => exact absurd rfl hne

end Fields

/-- What is read as a manifest is what its document says. -/
theorem says_of_parse {bytes : ByteArray} {m : Manifest} (h : parse bytes = .ok m) :
    ∃ text d, String.fromUTF8? bytes = some text ∧ Document.ofText? text = some d ∧ Says d m := by
  obtain ⟨text, d, htext, hd, path, t, u, h⟩ :=
    Reader.exists_accepts_of_readBytes (parse_eq_ok_iff.1 h).2
  obtain ⟨fields, hfields, h⟩ := Reader.refine_eq_ok_iff.1 h
  obtain ⟨name, hname, h⟩ := bind_eq_ok_iff.1 h
  rw [required_eq_ok_iff] at hname
  obtain ⟨hmname, hmreleases⟩ := Prod.mk.inj (Except.ok.inj h)
  have hfields : Reader.Accepts (Reader.record _ {} field) d 128 (d.root.getD .absent) fields :=
    ⟨path, t, u, hfields⟩
  refine ⟨text, d, htext, hd, ?_, ?_⟩
  · rw [member?, ← hmname, ← hname]
    exact (Fields.takesMember_name.view_eq_bind rfl hfields).symm
  · have htied := Document.isTied_of_ofText? hd
    rcases (Fields.takesMember_releases htied).record_cases hfields with
      ⟨hnone, hview⟩ | ⟨n, hn, hview⟩
    · rw [member?, hnone, ← hmreleases, hview]
      exact .missing
    · rw [member?, hn, ← hmreleases]
      exact hview

/-- One item that is no release makes a document no manifest. -/
theorem exists_error_of_isFlawed {bytes : ByteArray} {text : String}
    {items : List (Node Nat)} {item : Node Nat} (htext : String.fromUTF8? bytes = some text)
    (hd : Document.ofText? text = some d) (hmember : member? d "releases" = some n)
    (hitems : d.HasItems n items) (hitem : item ∈ items) (hflawed : Release.IsFlawed d item) :
    ∃ e, parse bytes = .error e := by
  cases hparse : parse bytes with
  | error e => exact ⟨e, rfl⟩
  | ok m =>
    obtain ⟨text', d', htext', hd', hsays⟩ := says_of_parse hparse
    obtain rfl := Option.some.inj (htext.symm.trans htext')
    obtain rfl := Option.some.inj (hd.symm.trans hd')
    have hlists := hsays.releases
    rw [hmember] at hlists
    cases hlists with
    | items hitems' hreleases =>
      obtain rfl := hitems.unique hitems'
      have hflip : List.Forall₂ (fun r item => Release.Says d item r) m.releases items :=
        hreleases.flip
      obtain ⟨r, hr⟩ := Yaml.exists_of_forall₂ hflip hitem
      exact absurd hflawed hr.not_isFlawed

/-! ## The main statement -/

/-- A manifest is valid for the deployment with the same name, octet for octet, and gives all its
releases. -/
theorem validateFor_eq_ok_iff {m : Manifest} {deployment : String} {rs : List Release} :
    m.validateFor deployment = .ok rs ↔ m.name.toUTF8 = deployment.toUTF8 ∧ rs = m.releases := by
  have hbytes : m.name.toUTF8 = deployment.toUTF8 ↔ m.name = deployment := String.toByteArray_inj
  rw [hbytes, validateFor]
  split
  · next hname => simp [hname, eq_comm]
  · next hname => simp [hname]

/-- What is read as a manifest keeps its bytes, and it is what the document of these bytes says: its
releases are those of the items under `releases`, one for each and in order, and it has none if
there is no such key or if nothing stands there. Validation gives just these releases if the name is
that of the deployment, octet by octet, and nothing otherwise. If one of the items, wherever it
stands, has no name or no version, or has a version that is neither text nor a number, there is no
manifest, and a run on these bytes ends with that. -/
theorem parse_extracts_all_releases (bytes : ByteArray) :
    (∀ m, parse bytes = .ok m → m.bytes = bytes ∧
      (∃ text d, String.fromUTF8? bytes = some text ∧ Document.ofText? text = some d ∧ Says d m) ∧
      ∀ deployment rs, m.validateFor deployment = .ok rs ↔
        m.name.toUTF8 = deployment.toUTF8 ∧ rs = m.releases) ∧
    ∀ text d n items item, String.fromUTF8? bytes = some text → Document.ofText? text = some d →
      member? d "releases" = some n → d.HasItems n items → item ∈ items →
      Release.IsFlawed d item →
      ∃ e, parse bytes = .error e ∧ ∀ (σ : Type) (deployment : String) (s : Deploy.State σ),
        (Deploy.validated deployment bytes).exec s =
          (.error (.invalidManifest (.unreadable e)), s) := by
  refine ⟨fun m h => ⟨(parse_eq_ok_iff.1 h).1, says_of_parse h, fun _ _ => validateFor_eq_ok_iff⟩,
    fun text d n items item htext hd hmember hitems hitem hflawed => ?_⟩
  obtain ⟨e, he⟩ := exists_error_of_isFlawed htext hd hmember hitems hitem hflawed
  refine ⟨e, he, fun σ deployment s => ?_⟩
  rw [Deploy.exec_validated, Deploy.validManifest, he]
  rfl

/-- Two releases with an alias between them, whose versions are a number and a text. -/
def aliasedReleases : String :=
  "name: dep\nreleases:\n- &a\n  name: a\n  version: 1.10\n- *a\n- name: b\n  version: \"1.10\"\n"

/-- A release and an item without a version. -/
def unversionedRelease : String := "name: dep\nreleases:\n- name: a\n  version: 1\n- name: b\n"

/-- An alias is one more release, and of the same version only the text is kept as it is. An item
without a version spoils what comes before it. -/
theorem parse_extracts_all_releases_aliased :
    (∃ m, parse aliasedReleases.toUTF8 = .ok m ∧ m.releases =
        [⟨"a", none, none, "1.1"⟩, ⟨"a", none, none, "1.1"⟩, ⟨"b", none, none, "1.10"⟩] ∧
      m.validateFor "dep" = .ok m.releases) ∧
    ∃ e, parse unversionedRelease.toUTF8 = .error e := by
  constructor
  · obtain ⟨m, hm, hfields⟩ := any_toOption_iff.1
      (show (parse aliasedReleases.toUTF8).toOption.any (fun m => m.name = "dep" ∧ m.releases =
        [⟨"a", none, none, "1.1"⟩, ⟨"a", none, none, "1.1"⟩, ⟨"b", none, none, "1.10"⟩]) = true by
          decide +kernel)
    obtain ⟨hname, hreleases⟩ := of_decide_eq_true hfields
    obtain ⟨-, -, hvalid⟩ := (parse_extracts_all_releases _).1 m hm
    exact ⟨m, hm, hreleases, (hvalid "dep" _).2 ⟨by rw [hname], rfl⟩⟩
  · have hitem : (Document.ofText? unversionedRelease).any (fun d =>
        (member? d "releases").any fun n => match d.followed n with
          | .sequence _ _ items => items.any fun item => (d.member? "version" item).isNone
          | _ => false) = true := by decide +kernel
    obtain ⟨d, hd, hitem⟩ := (Option.any_eq_true _ _).1 hitem
    obtain ⟨n, hn, hitem⟩ := (Option.any_eq_true _ _).1 hitem
    split at hitem
    · next hsequence =>
      obtain ⟨item, hmem, hnone⟩ := List.any_eq_true.1 hitem
      obtain ⟨e, he, -⟩ := (parse_extracts_all_releases _).2 _ d n _ item
        (fromUTF8?_toUTF8 _) hd hn (.sequence hsequence) hmem
        (.noVersion (Option.isNone_iff_eq_none.1 hnone))
      exact ⟨e, he⟩
    · cases hitem

end Manifest

end Rollout
