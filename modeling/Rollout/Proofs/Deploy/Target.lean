import Rollout.Proofs.Manifest.DeclaredName
import Rollout.Proofs.Program.Preview
import Rollout.Proofs.Substitution.ProperValues

/-!
# The deployment that a run is meant for

A run goes on to the diff only if the document declares the deployment that the store holds, and
otherwise it fails (`target_is_declared`). The values of its variables are taken to be values that
can be read, as those of every command line are (`Program.isProper_variableSet`). What a document
declares is the text of a scalar, though, and not only a string: a run for the deployment `16`
accepts a document whose name is the number (`not_targetsString_sample`).
-/

namespace Rollout.Deploy

open Yaml (Value)

variable {σ : Type} {cs : Collaborators σ} {request : DeployRequest} {w : σ}

/-! ## The document of a run -/

/-- The value of the manifest of a run, with everything replaced. -/
def evaluated (request : DeployRequest) : Except DeployError Value := do
  let vars ← Program.loadAll request.vars
  evaluateManifest request.manifest vars.value?

/-- A run interpolates its manifest to the text of the value. -/
theorem interpolatedBytes_eq (request : DeployRequest) :
    interpolatedBytes request = (do
      let v ← evaluated request
      match v.write? with
      | some text => .ok text.toUTF8
      | none => .error (.invalidManifest .unwritable)) := by
  rw [interpolatedBytes, evaluated]
  cases Program.loadAll request.vars with
  | error e => rfl
  | ok vars =>
    rw [ok_bind, ok_bind, interpolate]
    cases evaluateManifest request.manifest vars.value? with
    | error e => rfl
    | ok v =>
      rw [ok_bind, ok_bind]
      cases v.write? <;> rfl

/-- With proper variables the manifest has a proper value. -/
theorem isProper_of_evaluated (hvars : request.vars.IsProper) {v : Value}
    (h : evaluated request = .ok v) : v.IsProper := by
  obtain ⟨vars, hload, h⟩ := bind_eq_ok_iff.1 h
  exact isProper_of_evaluateManifest (Program.isProper_of_loadAll hvars hload) h

/-- A run with a manifest to show has a value for it. -/
theorem exists_evaluated {deployment : String} {m : Manifest}
    (h : document deployment request = .ok m) : ∃ v, evaluated request = .ok v := by
  obtain ⟨bytes, hbytes, -⟩ := bind_eq_ok_iff.1 h
  rw [interpolatedBytes_eq] at hbytes
  obtain ⟨v, hv, -⟩ := bind_eq_ok_iff.1 hbytes
  exact ⟨v, hv⟩

/-- A run without a manifest to show fails for the same reason, if it abandons no source. -/
theorem result_of_document_error {e : DeployError} (h : document cs.deployment request = .error e)
    (hreturn : cs.allReturn w (loads request.vars.sources) = true) :
    result cs request w false = .error e := by
  have hloaded := cs.allReturn_of_prefix w (loadCalls_within request.vars.sources) hreturn
  cases hbytes : interpolatedBytes request with
  | error e' =>
    rw [document, hbytes] at h
    cases h
    exact (execute_of_interpolatedBytes_error hbytes hloaded).1
  | ok bytes =>
    rw [document, hbytes, ok_bind] at h
    have hopening : ∃ t, (opening cs request).exec { world := w } = (.error e, t) := by
      rw [opening, exec_bind, exec_proceed, if_neg Bool.false_ne_true,
        exec_interpolated cs _ hloaded, hbytes]
      simp [exec_bind, exec_validated, h, Except.map]
    obtain ⟨t, hopening⟩ := hopening
    exact (final_of_exec_opening_error hopening).1

/-! ## The check of the name -/

/-- The text that is written for a value can be read as a manifest. -/
def SpellsManifest (v : Value) : Prop :=
  ∃ text m, v.write? = some text ∧ Manifest.parse text.toUTF8 = .ok m

/-- The document of a run is what is written for the value of its manifest, and this declares the
deployment of the run. -/
theorem document_eq_ok {v : Value} (hvars : request.vars.IsProper)
    (hv : evaluated request = .ok v) {deployment : String} {m : Manifest}
    (h : document deployment request = .ok m) :
    (∃ text, v.write? = some text ∧ m.bytes = text.toUTF8) ∧
      v.declaredName? = some deployment := by
  rw [document, interpolatedBytes_eq, hv, ok_bind] at h
  cases hwrite : v.write? with
  | none =>
    rw [hwrite] at h
    cases h
  | some text =>
    rw [hwrite] at h
    obtain ⟨hparse, rfl⟩ := validManifest_eq_ok_iff.1 h
    have hname := Manifest.declaredName?_of_parse (isProper_of_evaluated hvars hv) hwrite hparse
    exact ⟨⟨text, rfl, bytes_of_parse hparse⟩, hname⟩

/-- A run whose document does not spell a manifest has none. -/
theorem document_of_not_spellsManifest {v : Value} (hv : evaluated request = .ok v)
    (h : ¬SpellsManifest v) (deployment : String) :
    ∃ e, document deployment request = .error (.invalidManifest e) := by
  rw [document, interpolatedBytes_eq, hv, ok_bind]
  cases hwrite : v.write? with
  | none => exact ⟨_, rfl⟩
  | some text =>
    dsimp only
    rw [ok_bind, validManifest]
    cases hparse : Manifest.parse text.toUTF8 with
    | error e => exact ⟨_, rfl⟩
    | ok m => exact absurd ⟨text, m, hwrite, hparse⟩ h

/-- A run whose document spells a manifest for another deployment is refused with both names. -/
theorem document_of_ne {v : Value} (hvars : request.vars.IsProper)
    (hv : evaluated request = .ok v) (hspells : SpellsManifest v) {name deployment : String}
    (hname : v.declaredName? = some name) (hne : name ≠ deployment) :
    document deployment request = .error (.nameMismatch deployment name) := by
  obtain ⟨text, m, hwrite, hparse⟩ := hspells
  have hdeclared :=
    Manifest.declaredName?_of_parse (isProper_of_evaluated hvars hv) hwrite hparse
  obtain rfl := Option.some.inj (hname.symm.trans hdeclared)
  rw [document, interpolatedBytes_eq, hv, ok_bind, hwrite]
  dsimp only
  rw [ok_bind, validManifest, hparse, mapError_ok, ok_bind, Manifest.validateFor, if_neg hne]
  rfl

/-! ## The main statement -/

/-- A run asks for a diff only of a document whose name is, byte for byte, the deployment of the
store, whatever its collaborators do and whenever it is cancelled. Unless it abandons a source, a
document that has no scalar for a name, or that is not a manifest for another reason, is invalid,
and a manifest for another deployment is refused with both names. -/
theorem target_is_declared (cs : Collaborators σ) (request : DeployRequest) (w : σ)
    (hvars : request.vars.IsProper) :
    (∀ cancelled bytes, .diff bytes ∈ calls cs request w cancelled →
      ∃ v text, evaluated request = .ok v ∧ v.write? = some text ∧ bytes = text.toUTF8 ∧
        v.declaredName? = some cs.deployment) ∧
    (cs.allReturn w (loads request.vars.sources) = true → ∀ v, evaluated request = .ok v →
      (v.declaredName? = none ∨ ¬SpellsManifest v →
        ∃ e, result cs request w false = .error (.invalidManifest e)) ∧
      ∀ name, v.declaredName? = some name → name ≠ cs.deployment → SpellsManifest v →
        result cs request w false = .error (.nameMismatch cs.deployment name)) := by
  refine ⟨fun cancelled bytes h => ?_,
    fun hreturn v hv => ⟨fun h => ?_, fun name hname hne hspells => ?_⟩⟩
  · obtain ⟨m, hm, rfl⟩ := document_of_mem_calls h rfl
    obtain ⟨v, hv⟩ := exists_evaluated hm
    obtain ⟨⟨text, hwrite, hbytes⟩, hname⟩ := document_eq_ok hvars hv hm
    exact ⟨v, text, hv, hwrite, hbytes, hname⟩
  · have hspells : ¬SpellsManifest v := by
      rcases h with hnone | hspells
      · rintro ⟨text, m, hwrite, hparse⟩
        have hname :=
          Manifest.declaredName?_of_parse (isProper_of_evaluated hvars hv) hwrite hparse
        cases hnone.symm.trans hname
      · exact hspells
    obtain ⟨e, he⟩ := document_of_not_spellsManifest hv hspells cs.deployment
    exact ⟨e, result_of_document_error he hreturn⟩
  · exact result_of_document_error (document_of_ne hvars hv hspells hname hne) hreturn

/-- A manifest whose name is a number from a variable. -/
def numberedRequest : DeployRequest where
  manifest := "name: ((n))\n".toUTF8
  vars := ⟨[⟨"n", .number (.integer 16)⟩], []⟩
  options := {}

/-- The variables of the sample are proper. -/
theorem isProper_numberedRequest : numberedRequest.vars.IsProper :=
  ⟨List.forall_mem_singleton.2 (.number (by decide : Yaml.Scalar.isWide 16 = false)), nofun⟩

/-- The deployment `web` is not the one that the number declares. -/
theorem target_is_declared_sample :
    result sampleScript.collaborators numberedRequest {} false =
      .error (.nameMismatch "web" "16") := by
  have hvalue : (evaluated numberedRequest).toOption.any (fun v =>
      v.declaredName? == some "16" && v.write?.any fun text =>
        (Manifest.parse text.toUTF8).toOption.isSome) = true := by decide +kernel
  obtain ⟨v, hv, hchecks⟩ := any_toOption_iff.1 hvalue
  simp only [Bool.and_eq_true, beq_iff_eq, Option.any_eq_true] at hchecks
  obtain ⟨hname, text, hwrite, hparse⟩ := hchecks
  obtain ⟨m, hm⟩ := Option.isSome_iff_exists.1 hparse
  have hspells : SpellsManifest v := ⟨text, m, hwrite, toOption_eq_some_iff.1 hm⟩
  obtain ⟨-, hjudged⟩ := target_is_declared sampleScript.collaborators numberedRequest {}
    isProper_numberedRequest
  exact (hjudged rfl v hv).2 "16" hname (by decide) hspells

/-! ## Names that are no strings -/

/-- A run that asks for a diff has a document that is a mapping with the deployment of the store as
a string under `name`. -/
def TargetsString (cs : Collaborators σ) (request : DeployRequest) (w : σ) : Prop :=
  ∀ bytes, .diff bytes ∈ calls cs request w false →
    ∃ entries, evaluated request = .ok (.mapping entries) ∧
      Value.field? "name" entries = some (.string cs.deployment)

/-- A run for the deployment `16` takes the number for its name, and goes on to the diff. -/
theorem not_targetsString_sample :
    ¬TargetsString ({ deployment := "16" } : Script).collaborators
      ⟨"name: 16\n".toUTF8, ⟨[], []⟩, {}⟩ {} := by
  intro h
  obtain ⟨entries, hv, hname⟩ := h "name: 16\n".toUTF8 (by decide +kernel)
  have hvalue : (evaluated ⟨"name: 16\n".toUTF8, ⟨[], []⟩, {}⟩).toOption.any (fun v =>
      (v.entries?.bind (Value.field? "name")).any fun w => !w.same (.string "16")) = true := by
    decide +kernel
  obtain ⟨v, hv', hchecks⟩ := any_toOption_iff.1 hvalue
  obtain rfl := Except.ok.inj (hv'.symm.trans hv)
  change (Value.field? "name" entries).any _ = true at hchecks
  rw [hname, Option.any_some, Bool.not_eq_true', Bool.eq_false_iff] at hchecks
  exact hchecks (Value.same_string_iff.2 rfl)

end Rollout.Deploy
