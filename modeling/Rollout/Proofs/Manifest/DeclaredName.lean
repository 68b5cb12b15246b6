import Rollout.Interpolation
import Rollout.Proofs.Manifest.Rereading
import Rollout.Proofs.Yaml.BrokenTag

/-!
# The name that a document declares

A manifest takes its name from the text of a scalar, so it is not only a string that can be a name:
numbers, truth values and nulls are names as well, by the texts that are written for them
(`Value.declaredName?`). What is read as the name of a manifest, if it is read from what has been
written for a value, is the name that the value declares (`Manifest.declaredName?_of_parse`).
-/

namespace Rollout

open Yaml (Value Entries Document Path Reader ReadM)

/-- The text of the scalar that a mapping has under `name`, with a tag or without. -/
def Yaml.Value.declaredName? (v : Value) : Option String :=
  (v.member? "name").bind fun w => Substitution.scalarText? w.untagged

/-! ## Texts of nodes -/

section Text

variable {v : Value} {d : Document} {depth : Nat} {path : Path} {s t : Nat} {name : String}

/-- The text of a scalar is the one that it is written with. -/
theorem scalarText?_of_scalar? {style : Yaml.Style} {text : String}
    (h : v.scalar? = some (style, text)) : Substitution.scalarText? v = some text := by
  cases v with
  | null | bool | number | string =>
    obtain ⟨-, rfl⟩ := Prod.mk.inj (Option.some.inj h)
    rfl
  | sequence | mapping | tagged => cases h

/-- A value that can be written has no tag under its tag. -/
theorem untagged_ne_tagged {underTag : Bool} (hw : v.isWritable underTag = true) (tag : String)
    (u : Value) : v.untagged ≠ .tagged tag u := by
  intro h
  cases v with
  | tagged tag' w =>
    obtain rfl : w = .tagged tag u := h
    simp [Value.isWritable] at hw
  | _ => cases h

/-- What stands under the tag of a value that can be written can be written. -/
theorem exists_isWritable_untagged {underTag : Bool} (hw : v.isWritable underTag = true) :
    ∃ underTag, v.untagged.isWritable underTag = true := by
  cases v with
  | tagged tag w =>
    rw [Value.isWritable, Bool.and_eq_true] at hw
    exact ⟨true, hw.2⟩
  | _ => exact ⟨underTag, hw⟩

/-- The text of a node that is written for a value is that of the value. -/
theorem scalarText?_of_text {underTag : Bool} (hw : v.isWritable underTag = true)
    (h : Reader.text d depth path v.toNode s = .ok (name, t)) :
    Substitution.scalarText? v.untagged = some name := by
  cases hscalar : v.untagged.scalar? with
  | some p =>
    obtain ⟨style, text⟩ := p
    obtain ⟨tag, hnode⟩ := Value.exists_toNode_of_scalar? hscalar
    rw [hnode] at h
    cases h
    exact scalarText?_of_scalar? hscalar
  | none =>
    cases hv : v.untagged with
    | sequence items =>
      obtain ⟨tag, hnode⟩ := Value.exists_toNode_of_sequence hv
      rw [hnode] at h
      cases h
    | mapping entries =>
      obtain ⟨tag, hnode⟩ := Value.exists_toNode_of_mapping hv
      rw [hnode] at h
      cases h
    | tagged tag u => exact absurd hv (untagged_ne_tagged hw tag u)
    | null | bool | number | string =>
      rw [hv] at hscalar
      cases hscalar

/-- The text of a key is that of a name of a field only if it is a string. -/
theorem eq_string_of_scalarText? {k : Value} (hk : k.IsProper) (hname : Yaml.Scalar.IsVerbatim name)
    (h : Substitution.scalarText? k = some name) : k = .string name := by
  have hscalar {x : Yaml.Scalar} (hx : x.toValue.IsLegible) (hcanonical : x.canonical = name) :
      x.toValue = .string name := by
    obtain ⟨style, hstyle⟩ := x.exists_scalar?_toValue
    have hread := Yaml.Scalar.read_of_scalar? hx hstyle false
    rw [hcanonical] at hread
    rw [hname x (Yaml.Scalar.spells_of_read hread)]
    rfl
  cases hk with
  | null => exact hscalar (x := .null) .null (Option.some.inj h)
  | bool b => exact hscalar (x := .bool b) (.bool b) (Option.some.inj h)
  | @number n hn =>
    cases n with
    | integer i => exact hscalar (x := .integer i) (.number hn) (Option.some.inj h)
    | float x => exact hscalar (x := .float x) (.number hn) (Option.some.inj h)
  | string s => exact congrArg Value.string (Option.some.inj h)
  | sequence | mapping | tagged => cases h

end Text

namespace Manifest

/-! ## Fields -/

/-- The name in the fields that have been read is the one that the entries so far declare. -/
structure Declares (m : Fields) (seen : List String) (es : Entries) : Prop where
  name : m.name = (Value.named? "name" es).bind fun w => Substitution.scalarText? w.untagged
  seen : ∀ e ∈ es, e.1.untagged = .string "name" → "name" ∈ seen

/-- The key of the name is written as it is. -/
theorem isVerbatim_name : Yaml.Scalar.IsVerbatim "name" :=
  Yaml.Scalar.isVerbatim_of_eq_none (by decide) (by decide) (by decide) (by decide)

variable {d : Document} {depth : Nat} {path : Path} {s t : Nat} {m result : Fields}
  {seen seen' : List String} {es entries : Entries}

/-- An entry with another key changes nothing. -/
theorem Declares.skip (h : Declares m seen es) {k w : Value} (hk : k.untagged ≠ .string "name")
    {m' : Fields} (hm : m'.name = m.name) (hseen : seen ⊆ seen') :
    Declares m' seen' (es ++ [(k, w)]) where
  name := by rw [hm, h.name, Value.named?_append_of_ne hk]
  seen e he heq := by
    rcases List.mem_append.1 he with he | he
    · exact hseen (h.seen e he heq)
    · obtain rfl := List.mem_singleton.1 he
      exact absurd heq hk

/-- One entry of a manifest that is accepted. -/
theorem Declares.recordEntry (h : Declares m seen es) {k w : Value} (hk : k.IsProper)
    (hkw : k.isWritable false = true) (hw : w.isWritable false = true)
    (hentry : Reader.recordEntry field d depth path (m, seen) (k.toNode, w.toNode) s =
      .ok ((result, seen'), t)) : Declares result seen' (es ++ [(k, w)]) := by
  obtain ⟨name, s₁, hname, hcases⟩ := Reader.recordEntry_cases hentry
  have htext := scalarText?_of_text hkw hname
  have hother (hne : name ≠ "name") : k.untagged ≠ .string "name" := by
    intro heq
    rw [heq] at htext
    exact hne (Option.some.inj htext).symm
  rcases hcases with ⟨hstep, heq⟩ | ⟨r, a, hstep, hnew, ha, heq⟩
  · cases heq
    refine h.skip (hother ?_) rfl (List.Subset.refl _)
    rintro rfl
    cases hstep
  · cases heq
    rw [field.eq_def] at hstep
    split at hstep
    · cases hstep
      obtain ⟨path', s₂, s₃, ha⟩ := ha
      obtain ⟨text, hread, rfl⟩ := ReadM.map_eq_ok_iff.1 ha
      have hkey : k.untagged = .string "name" :=
        eq_string_of_scalarText? hk.untagged isVerbatim_name htext
      have hfirst : ∀ e ∈ es, e.1.untagged ≠ .string "name" :=
        fun e he heq => hnew (h.seen e he heq)
      refine ⟨?_, fun _ _ _ => List.mem_cons_self⟩
      rw [Value.named?_append_of_eq hkey hfirst [], Option.bind_some, scalarText?_of_text hw hread]
    · cases hstep
      obtain ⟨path', s₂, s₃, ha⟩ := ha
      obtain ⟨releases, -, rfl⟩ := ReadM.map_eq_ok_iff.1 ha
      exact h.skip (hother (by decide)) rfl (List.subset_cons_self _ _)
    · cases hstep

/-- What the entries declare stays declared along the fold over the fields. -/
theorem Declares.foldlM (h : Declares m seen es)
    (hentries : ∀ e ∈ entries, e.1.IsProper ∧ e.1.isWritable false = true ∧
      e.2.isWritable false = true)
    (hfold : (Value.entryNodes entries).foldlM (Reader.recordEntry field d depth path) (m, seen) s =
      .ok ((result, seen'), t)) : Declares result seen' (es ++ entries) := by
  induction entries generalizing m seen es s with
  | nil =>
    cases hfold
    rwa [List.append_nil]
  | cons e entries ih =>
    obtain ⟨⟨hk, hkw, hw⟩, hentries⟩ := List.forall_mem_cons.1 hentries
    rw [Value.entryNodes, List.foldlM_cons] at hfold
    obtain ⟨⟨m', seen₁⟩, s₁, hentry, hfold⟩ := ReadM.bind_eq_ok_iff.1 hfold
    have hnext := ih (h.recordEntry hk hkw hw hentry) hentries hfold
    rwa [List.append_assoc, List.singleton_append] at hnext

/-- The fields that are read from what is written for a mapping with a name. -/
theorem declaredName?_of_mapping {v : Value} {entries : Entries} (hv : v.IsProper)
    {underTag : Bool} (hw : v.isWritable underTag = true)
    (huntagged : v.untagged = .mapping entries) {expected name : String} (h : (Reader.record expected {} field).Accepts d depth v.toNode m)
    (hname : m.name = some name) : v.declaredName? = some name := by
  obtain ⟨path, s, t, h⟩ := h
  obtain ⟨tag, hnode⟩ := Value.exists_toNode_of_mapping huntagged
  rw [hnode] at h
  cases depth with
  | zero => cases h
  | succ depth =>
    rw [Reader.record_mapping] at h
    obtain ⟨⟨result, seen⟩, s₁, hfold, h⟩ := ReadM.bind_eq_ok_iff.1 h
    cases h
    obtain ⟨underTag, hw⟩ := exists_isWritable_untagged hw
    have hproper := hv.untagged
    rw [huntagged] at hw hproper
    have hentries : ∀ e ∈ entries, e.1.IsProper ∧ e.1.isWritable false = true ∧
        e.2.isWritable false = true :=
      fun e he => ⟨(hproper.of_mem_mapping he).1, Value.isWritable_of_mem_mapping hw e he⟩
    have hinit : Declares {} [] [] := ⟨rfl, fun _ h => absurd h List.not_mem_nil⟩
    have hdeclares := (hinit.foldlM hentries hfold).name
    rw [List.nil_append, hname] at hdeclares
    rw [Value.declaredName?, Value.member?_eq huntagged, hdeclares]

/-- The fields that are read from what is written for a value with a name: nothing but a mapping has
one. -/
theorem declaredName?_of_record {v : Value} (hv : v.IsProper) {underTag : Bool}
    (hw : v.isWritable underTag = true) {expected name : String}
    (h : (Reader.record expected {} field).Accepts d depth v.toNode m)
    (hname : m.name = some name) : v.declaredName? = some name := by
  cases hscalar : v.untagged.scalar? with
  | some p =>
    obtain ⟨path, s, t, h⟩ := h
    obtain ⟨style, text⟩ := p
    obtain ⟨tag, hnode⟩ := Value.exists_toNode_of_scalar? hscalar
    rw [hnode] at h
    change (if (style = .plain && text.isEmpty) = true then pure {} else _ : ReadM Fields) s = _
      at h
    split_ifs at h
    · cases h
      cases hname
    · cases h
  | none =>
    cases huntagged : v.untagged with
    | mapping entries => exact declaredName?_of_mapping hv hw huntagged h hname
    | sequence items =>
      obtain ⟨path, s, t, h⟩ := h
      obtain ⟨tag, hnode⟩ := Value.exists_toNode_of_sequence huntagged
      rw [hnode] at h
      cases h
    | tagged tag u => exact absurd huntagged (untagged_ne_tagged hw tag u)
    | null | bool | number | string =>
      rw [huntagged] at hscalar
      cases hscalar

/-- What is read as the name of a manifest from what is written for a value is the name that the
value declares. -/
theorem declaredName?_of_parse {v : Value} (hv : v.IsProper) {text : String}
    (hwrite : v.write? = some text) {m : Manifest} (h : parse text.toUTF8 = .ok m) :
    v.declaredName? = some m.name := by
  obtain ⟨text', d, htext, hd, ⟨path, s, t, hread⟩⟩ :=
    Reader.exists_accepts_of_readBytes (parse_eq_ok_iff.1 h).2
  obtain rfl := Option.some.inj ((fromUTF8?_toUTF8 text).symm.trans htext)
  have hw := (Value.write?_eq_some_iff.1 hwrite).1
  have hlegible : v.IsLegible := by
    by_contra hne
    rw [hv.ofText?_eq_none hne hwrite] at hd
    cases hd
  obtain rfl := Option.some.inj ((hlegible.ofText?_of_write? hwrite).symm.trans hd)
  obtain ⟨fields, hfields, hname⟩ := Reader.refine_eq_ok_iff.1 hread
  obtain ⟨name, hrequired, hname⟩ := bind_eq_ok_iff.1 hname
  rw [required_eq_ok_iff] at hrequired
  obtain ⟨rfl, -⟩ := Prod.mk.inj (Except.ok.inj hname)
  exact declaredName?_of_record hv hw ⟨path, s, t, hfields⟩ hrequired

end Manifest

end Rollout
