import Rollout.Deploy.Script
import Rollout.Proofs.Deploy.Course

/-!
# The plan of a run

A run has three stages. It interpolates and validates the manifest (`opening`), shows the diff, asks
for confirmation and has the releases uploaded (`approval`), and updates the deployment (`commit`).
`plan` lists all calls of a run, from the loading of the first source to the update.

The calls of any run are the first of its plan (`course_calls`), whatever the collaborators answer
and wherever the run is cancelled.
-/

namespace Rollout.Deploy

variable {σ α : Type} {cs : Collaborators σ} {request : DeployRequest} {s t : State σ}

/-! ## Stages -/

/-- The stage of a run that interpolates and validates the manifest and says which deployment it is
for. -/
def opening (cs : Collaborators σ) (request : DeployRequest) : RunM σ Manifest := do
  let bytes ← proceed (interpolated cs request)
  advance
  let (manifest, _) ← validated cs.deployment bytes
  advance
  say cs (banner cs.deployment)
  return manifest

/-- The part of a run that asks the user and then has the releases of a manifest uploaded. -/
def confirmation (cs : Collaborators σ) (manifest : Manifest) : RunM σ SyncSummary := do
  proceed (attempt .confirm .confirmationRejected cs.confirm)
  advance
  let summary ← sync cs manifest.releases
  advance
  return summary

/-- The stage of a run in which the manifest is shown and confirmed and its releases are
uploaded. -/
def approval (cs : Collaborators σ) (manifest : Manifest) : RunM σ SyncSummary := do
  let _ ← proceed (presentDiff cs manifest.bytes)
  advance
  confirmation cs manifest

/-- The stage of a run that updates the deployment. -/
def commit (cs : Collaborators σ) (update : UpdateRequest) : RunM σ Unit := do
  proceed (attempt (.update update) .update (cs.update update))
  advance

/-- Two parts of a run that do the same are equal. -/
theorem RunM.ext {m m' : RunM σ α} (h : ∀ s, m.exec s = m'.exec s) : m = m' := funext h

/-- A run goes through the three stages. -/
theorem steps_eq (cs : Collaborators σ) (request : DeployRequest) :
    steps cs request = (do
      let manifest ← opening cs request
      let summary ← approval cs manifest
      commit cs ⟨manifest.bytes, request.options⟩
      return summary) := by
  apply RunM.ext
  intro s
  simp only [steps, opening, approval, confirmation, commit, bind_assoc, pure_bind]
  refine exec_bind_congr fun bytes t _ => ?_
  refine exec_bind_congr fun _ u _ => ?_
  refine exec_bind_congr fun (m, releases) v hm => ?_
  obtain ⟨-, rfl, -⟩ := exec_validated_eq_ok_iff.1 hm
  rfl

/-! ## Plans -/

/-- The calls of the first stage: the sources are loaded and the deployment is named. -/
def openingCalls (cs : Collaborators σ) (request : DeployRequest) : List Call :=
  loads request.vars.sources ++ [.say (banner cs.deployment)]

/-- The calls that show a manifest to the user: the diff that is fetched, and its lines. -/
def reviewCalls (cs : Collaborators σ) (w : σ) (m : Manifest) : List Call :=
  .diff m.bytes :: (cs.fetched w m.bytes).map (.say ·.render)

/-- The calls of the second stage, from the diff to the last upload. -/
def approvalCalls (cs : Collaborators σ) (w : σ) (m : Manifest) : List Call :=
  reviewCalls cs w m ++ .confirm :: (uploads m.releases).map .upload

/-- The call of the last stage. There is none unless the versions of all uploads can be read. -/
def commitCalls (options : UpdateOptions) (m : Manifest) : List Call :=
  match m.releases.mapM Release.uploadRequest? with
  | .error _ => []
  | .ok _ => [.update ⟨m.bytes, options⟩]

/-- There is no call but the update in the last stage. -/
theorem commitCalls_within (options : UpdateOptions) (m : Manifest) :
    commitCalls options m <+: [.update ⟨m.bytes, options⟩] := by
  rw [commitCalls]
  split
  · exact List.nil_prefix
  · exact List.prefix_rfl

/-- The calls of a run that begins in the world `w`, from first to last. Without a manifest that
can be shown there are none after the sources have been loaded. -/
def plan (cs : Collaborators σ) (request : DeployRequest) (w : σ) : List Call :=
  match document cs.deployment request with
  | .error _ => loads request.vars.sources
  | .ok m =>
    openingCalls cs request ++
      (approvalCalls cs (cs.after w (openingCalls cs request)) m ++ commitCalls request.options m)

/-- The first stage ends with a manifest if the run has not been cancelled before and no source is
abandoned. -/
theorem exec_opening_eq_ok_iff {m : Manifest} :
    (opening cs request).exec s = (.ok m, t) ↔
      s.cancelled = false ∧ document cs.deployment request = .ok m ∧
        cs.allReturn s.world (loads request.vars.sources) = true ∧
        t = { s.made cs (openingCalls cs request) with
          phase := s.phase.target.target
          steps := s.steps ++ [s.phase.target] ++ [s.phase.target.target] } := by
  have hmade : (s.made cs (loads request.vars.sources)).made cs [.say (banner cs.deployment)] =
      s.made cs (openingCalls cs request) := s.made_made cs _ _
  rw [opening, document, exec_bind_eq_ok_iff]
  constructor
  · rintro ⟨bytes, u, hu, h₁⟩
    obtain ⟨hc, hbytes, hreturn, rfl⟩ := exec_interpolated_eq_ok_iff.1 hu
    rw [exec_bind, exec_advance] at h₁
    obtain ⟨⟨m', releases⟩, v, hv, h₂⟩ := exec_bind_eq_ok_iff.1 h₁
    obtain ⟨hm, -, rfl⟩ := exec_validated_eq_ok_iff.1 hv
    obtain ⟨rfl, rfl⟩ : m' = m ∧ _ = t := by
      simpa only [exec_bind, exec_advance, exec_say, exec_pure, Prod.mk.injEq, Except.ok.injEq]
        using h₂
    refine ⟨hc, bind_eq_ok_iff.2 ⟨bytes, hbytes, hm⟩, hreturn, ?_⟩
    rw [← hmade]
    rfl
  · rintro ⟨hc, hm, hreturn, rfl⟩
    obtain ⟨bytes, hbytes, hm⟩ := bind_eq_ok_iff.1 hm
    refine ⟨bytes, _, exec_interpolated_eq_ok_iff.2 ⟨hc, hbytes, hreturn, rfl⟩, ?_⟩
    rw [← hmade]
    simp only [exec_bind, exec_advance, exec_validated, hm, Except.map, exec_say, exec_pure]
    rfl

/-- A first stage that fails has loaded sources at most, all of them that can be loaded unless the
run is cancelled, and it does not get beyond the phase after the one that it begins with. -/
theorem exec_opening_error {e : DeployError} (h : (opening cs request).exec s = (.error e, t)) :
    ∃ made, made <+: loadCalls request.vars.sources ∧ Leads cs s t made ∧
      (s.cancelled = true → made = []) ∧
      (s.cancelled = false → cs.allReturn s.world (loadCalls request.vars.sources) = true →
        made = loadCalls request.vars.sources) ∧
      t.steps <+: s.steps ++ [s.phase.target] := by
  rw [opening, exec_bind] at h
  rcases hi : (proceed (interpolated cs request)).exec s with ⟨e' | bytes, u⟩
  · rw [hi] at h
    obtain rfl : u = t := (Prod.mk.inj h).2
    obtain ⟨made, hmade, rfl, hquiet, hall⟩ := exec_interpolated_error hi
    exact ⟨made, hmade, leads_made s made, hquiet, hall, List.prefix_append _ _⟩
  · obtain ⟨hc, hbytes, -, rfl⟩ := exec_interpolated_eq_ok_iff.1 hi
    rw [hi] at h
    simp only [exec_bind, exec_advance, exec_validated] at h
    cases hm : validManifest cs.deployment bytes with
    | error e' =>
      rw [hm] at h
      obtain rfl := (Prod.mk.inj h).2
      rw [loadCalls_of_interpolatedBytes hbytes]
      refine ⟨_, List.prefix_rfl, ?_, by simp [hc], fun _ _ => rfl, List.prefix_rfl⟩
      exact ⟨rfl, rfl, rfl, List.prefix_append _ _⟩
    | ok m => simp [hm, Except.map] at h

/-- What the first stage leaves behind when it succeeds. -/
theorem leads_of_exec_opening {m : Manifest} (h : (opening cs request).exec s = (.ok m, t)) :
    Leads cs s t (openingCalls cs request) := by
  obtain ⟨-, -, -, rfl⟩ := exec_opening_eq_ok_iff.1 h
  refine ⟨rfl, rfl, rfl, ?_⟩
  rw [List.append_assoc]
  exact List.prefix_append _ _

/-- The calls of the first stage load the sources, and name the deployment if there is a manifest
for it. -/
theorem keeps_opening : Keeps cs (opening cs request) s (openingCalls cs request) := by
  have hloads : ∀ c ∈ loads request.vars.sources, ∃ source, c = .load source :=
    fun c hc => exists_load_of_mem hc
  rcases hexec : (opening cs request).exec s with ⟨e | m', t⟩
  · obtain ⟨made, hmade, hleads, hquiet, -⟩ := exec_opening_error hexec
    have hwithin := (hmade.trans (loadCalls_within _)).trans
      (List.prefix_append _ [.say (banner cs.deployment)])
    refine ⟨made, ?_, hwithin, ?_, halts_loads hwithin hloads, hquiet⟩
    · rwa [hexec]
    · intro a ha
      rw [hexec] at ha
      cases ha
  · have hc : s.cancelled = false := (exec_opening_eq_ok_iff.1 hexec).1
    refine ⟨_, ?_, List.prefix_rfl, fun _ _ => rfl, halts_loads List.prefix_rfl hloads,
      by simp [hc]⟩
    rw [hexec]
    exact leads_of_exec_opening hexec

/-- Without a manifest for the deployment a run ends with its first stage. -/
theorem keeps_of_document_error {e : DeployError} (h : document cs.deployment request = .error e)
    (f : Manifest → RunM σ α) :
    Keeps cs (opening cs request >>= f) s (loads request.vars.sources) := by
  rcases hexec : (opening cs request).exec s with ⟨e' | m, t⟩
  · obtain ⟨made, hmade, hleads, hquiet, -⟩ := exec_opening_error hexec
    have hbind : (opening cs request >>= f).exec s = (.error e', t) := by rw [exec_bind, hexec]
    have hwithin := hmade.trans (loadCalls_within _)
    refine ⟨made, ?_, hwithin, ?_, ?_, hquiet⟩
    · rwa [hbind]
    · intro a ha
      rw [hbind] at ha
      cases ha
    · exact halts_loads (hwithin.trans (List.prefix_append _ _)) fun c hc => exists_load_of_mem hc
  · obtain ⟨-, hm, -⟩ := exec_opening_eq_ok_iff.1 hexec
    cases h.symm.trans hm

/-- The calls that ask the user and upload the releases. -/
theorem keeps_confirmation (m : Manifest) :
    Keeps cs (confirmation cs m) s (.confirm :: (uploads m.releases).map .upload) := by
  refine Keeps.bind (keeps_proceed_attempt rfl rfl (by rfl)) fun _ t _ => ?_
  refine keeps_advance.bind_of_nil fun _ t _ => ?_
  refine (keeps_sync m.releases).bind_nil fun summary t => ?_
  exact keeps_advance.bind_of_nil fun _ t _ => keeps_pure summary

/-- The calls of the second stage. -/
theorem keeps_approval (m : Manifest) :
    Keeps cs (approval cs m) s (approvalCalls cs s.world m) := by
  refine (keeps_presentDiff m.bytes).bind fun _ t _ => ?_
  exact keeps_advance.bind_of_nil fun _ t _ => keeps_confirmation m

/-- The second stage succeeds only if the versions of all uploads can be read. -/
theorem mapM_of_exec_approval {m : Manifest} {summary : SyncSummary}
    (h : (approval cs m).exec s = (.ok summary, t)) :
    ∃ requests, m.releases.mapM Release.uploadRequest? = .ok requests := by
  obtain ⟨_, _, -, h₁⟩ := exec_bind_eq_ok_iff.1 h
  obtain ⟨_, _, -, h₂⟩ := exec_bind_eq_ok_iff.1 h₁
  obtain ⟨_, _, -, h₃⟩ := exec_bind_eq_ok_iff.1 h₂
  obtain ⟨_, _, -, h₄⟩ := exec_bind_eq_ok_iff.1 h₃
  obtain ⟨_, _, hsync, -⟩ := exec_bind_eq_ok_iff.1 h₄
  exact mapM_of_exec_sync hsync

/-- The only call of the last stage is the update. -/
theorem keeps_commit (update : UpdateRequest) :
    Keeps cs (commit cs update) s [.update update] :=
  Keeps.bind_nil (keeps_proceed_attempt rfl rfl (by rfl)) fun _ _ => keeps_advance

/-- The calls of the last two stages. -/
theorem keeps_approval_commit (m : Manifest) (options : UpdateOptions) :
    Keeps cs (do
      let summary ← approval cs m
      commit cs ⟨m.bytes, options⟩
      return summary) s (approvalCalls cs s.world m ++ commitCalls options m) := by
  refine (keeps_approval m).bind fun summary t ht => ?_
  obtain ⟨requests, hrequests⟩ := mapM_of_exec_approval ht
  rw [commitCalls, hrequests]
  exact (keeps_commit _).bind_nil fun _ t => keeps_pure summary

/-- The calls of a run are the first of its plan, and all of them if it succeeds. -/
theorem keeps_steps : Keeps cs (steps cs request) s (plan cs request s.world) := by
  rw [steps_eq, plan]
  cases hm : document cs.deployment request with
  | error e => exact keeps_of_document_error hm _
  | ok m =>
    refine keeps_opening.bind fun m' t ht => ?_
    obtain ⟨-, hm', -⟩ := exec_opening_eq_ok_iff.1 ht
    obtain rfl := Except.ok.inj (hm.symm.trans hm')
    rw [← (leads_of_exec_opening ht).world]
    exact keeps_approval_commit m request.options

/-! ## Runs -/

/-- The result of a run that begins in the world `w`, cancelled before its begin or not. -/
def result (cs : Collaborators σ) (request : DeployRequest) (w : σ) (cancelled : Bool) :
    Except DeployError DeployReport :=
  (execute cs request { world := w, cancelled }).1

/-- The state that such a run leaves. -/
def final (cs : Collaborators σ) (request : DeployRequest) (w : σ) (cancelled : Bool) : State σ :=
  (execute cs request { world := w, cancelled }).2

/-- The calls of such a run, in order. -/
def calls (cs : Collaborators σ) (request : DeployRequest) (w : σ) (cancelled : Bool) : List Call :=
  (final cs request w cancelled).calls

variable {w : σ} {cancelled : Bool}

/-- The calls of a run are those of its steps. -/
theorem calls_eq_exec : calls cs request w cancelled =
    ((steps cs request).exec { world := w, cancelled }).2.calls := by
  rw [calls, final, execute, ← RunM.exec]
  rcases (steps cs request).exec { world := w, cancelled } with ⟨e | summary, t⟩ <;> rfl

/-- A phase that the steps have reached has been reached in the end. -/
theorem steps_prefix_final :
    ((steps cs request).exec { world := w, cancelled }).2.steps <+:
      (final cs request w cancelled).steps := by
  rw [final, execute, ← RunM.exec]
  rcases (steps cs request).exec { world := w, cancelled } with ⟨e | summary, t⟩
  · exact List.prefix_rfl
  · exact List.prefix_append _ _

/-- A run succeeds if its steps do. -/
theorem result_eq_ok_iff :
    (∃ report, result cs request w cancelled = .ok report) ↔
      ∃ summary t, (steps cs request).exec { world := w, cancelled } = (.ok summary, t) := by
  rw [result, execute, ← RunM.exec]
  rcases (steps cs request).exec { world := w, cancelled } with ⟨e | summary, t⟩
  · simp
  · simp

/-- The calls of a run are a course of its plan. -/
theorem course_calls :
    Course cs (steps cs request) { world := w, cancelled } (plan cs request w)
      (calls cs request w cancelled) := by
  obtain ⟨made, hmade⟩ : Keeps cs (steps cs request) { world := w, cancelled } _ := keeps_steps
  have hcalls : calls cs request w cancelled = made := by
    rw [calls_eq_exec, hmade.leads.calls]
    rfl
  rw [hcalls]
  exact hmade

/-- The manifest that a call passes on, if it passes one on. -/
def manifest? : Call → Option ByteArray
  | .diff manifest => some manifest
  | .update u => some u.manifest
  | _ => none

/-- A run passes on no other bytes than those of the manifest that it shows. -/
theorem document_of_mem_calls {c : Call} {bytes : ByteArray}
    (h : c ∈ calls cs request w cancelled) (hc : manifest? c = some bytes) :
    ∃ m, document cs.deployment request = .ok m ∧ m.bytes = bytes := by
  have hplan : c ∈ plan cs request w := course_calls.within.subset h
  rw [plan] at hplan
  cases hm : document cs.deployment request with
  | error e =>
    rw [hm] at hplan
    obtain ⟨source, rfl⟩ := exists_load_of_mem hplan
    cases hc
  | ok m =>
    rw [hm] at hplan
    refine ⟨m, rfl, ?_⟩
    rcases List.mem_append.1 hplan with hopening | hplan
    · rcases List.mem_append.1 hopening with hload | hsay
      · obtain ⟨source, rfl⟩ := exists_load_of_mem hload
        cases hc
      · obtain rfl := List.mem_singleton.1 hsay
        cases hc
    rcases List.mem_append.1 hplan with happroval | hcommit
    · rw [approvalCalls, reviewCalls] at happroval
      cases c with
      | diff manifest =>
        obtain rfl : manifest = m.bytes := by simpa using happroval
        exact Option.some.inj hc
      | update u => simp at happroval
      | _ => cases hc
    · obtain rfl := List.mem_singleton.1 ((commitCalls_within request.options m).subset hcommit)
      exact Option.some.inj hc

/-! ## A sample run -/

/-- A manifest with one release, and no variables. -/
def sampleRequest : DeployRequest where
  manifest := "name: web\nreleases:\n- name: nginx\n  version: 1\n  url: local\n".toUTF8
  vars := ⟨[], []⟩
  options := {}

/-- Collaborators that agree to everything. -/
def sampleScript : Script where
  deployment := "web"
  diff := .ok [⟨"nginx", .added⟩]

/-- The sample run makes every sort of call but a load. -/
theorem calls_sample : calls sampleScript.collaborators sampleRequest {} false =
    [.say "Using deployment 'web'\n", .diff sampleRequest.manifest, .say "+ nginx\n", .confirm,
      .upload ⟨"nginx", "local", none, ⟨"1", none⟩⟩, .update ⟨sampleRequest.manifest, {}⟩] := by
  decide +kernel

end Rollout.Deploy
