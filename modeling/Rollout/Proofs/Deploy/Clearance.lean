import Rollout.Proofs.Deploy.Approval

/-!
# When a run updates

A run updates the deployment exactly if everything before the update goes well: the sources are
loaded, the manifest is interpolated and validated, the deployment is named, and the manifest is
approved, all of it without the run being cancelled (`update_called_iff`). What is updated is then
what has been shown (`update_applies_reviewed`).
-/

namespace Rollout.Deploy

variable {σ : Type} {cs : Collaborators σ} {request : DeployRequest} {s t v : State σ} {w : σ}
  {cancelled : Bool} {m : Manifest}

/-! ## Runs that get to the update -/

/-- A run is cleared for the update of a manifest if its first two stages complete with it. The
update begins in the state `v`. -/
def Cleared (cs : Collaborators σ) (request : DeployRequest) (w : σ) (cancelled : Bool)
    (m : Manifest) (v : State σ) : Prop :=
  ∃ summary t, (opening cs request).exec { world := w, cancelled } = (.ok m, t) ∧
    (approval cs m).exec t = (.ok summary, v) ∧ v.cancelled = false

/-- A run is cleared for the manifest that it shows, if this is approved and the run has not been
cancelled by then. -/
theorem exists_cleared_iff :
    (∃ v, Cleared cs request w cancelled m v) ↔
      cancelled = false ∧ cs.anyStruck w (openingCalls cs request) = false ∧
        document cs.deployment request = .ok m ∧
        Approved cs (cs.after w (openingCalls cs request)) m := by
  constructor
  · rintro ⟨v, summary, t, hopening, happroval, hv⟩
    obtain ⟨hc, hm, -, rfl⟩ := exec_opening_eq_ok_iff.1 hopening
    obtain ⟨hopened, happroved⟩ := completes_approval_iff.1 ⟨summary, v, happroval, hv⟩
    exact ⟨hc, (Bool.or_eq_false_iff.1 hopened).2, hm, happroved⟩
  · rintro ⟨hc, hopened, hm, happroved⟩
    have hstruck := hopened
    rw [openingCalls, cs.anyStruck_append, Bool.or_eq_false_iff] at hstruck
    have hreturn := cs.allReturn_of_anyStruck w hstruck.1
    obtain ⟨t, hopening, htc, hworld⟩ : ∃ t : State σ,
        (opening cs request).exec { world := w, cancelled } = (.ok m, t) ∧ t.cancelled = false ∧
          t.world = cs.after w (openingCalls cs request) :=
      ⟨_, exec_opening_eq_ok_iff.2 ⟨hc, hm, hreturn, rfl⟩,
        Bool.or_eq_false_iff.2 ⟨hc, hopened⟩, rfl⟩
    rw [← hworld] at happroved
    obtain ⟨summary, v, happroval, hv⟩ := completes_approval_iff.2 ⟨htc, happroved⟩
    exact ⟨v, summary, t, hopening, happroval, hv⟩

/-- A run that is cleared has made all calls of its first two stages by then. -/
theorem Cleared.leads (h : Cleared cs request w cancelled m v) :
    Leads cs { world := w, cancelled } v (openingCalls cs request ++
      approvalCalls cs (cs.after w (openingCalls cs request)) m) := by
  obtain ⟨summary, t, hopening, happroval, -⟩ := h
  have hopened := leads_of_exec_opening hopening
  obtain ⟨made, hmade⟩ : Keeps cs (approval cs m) t _ := keeps_approval m
  have hleads := hmade.leads_of_exec happroval
  rw [hmade.made_eq happroval, hopened.world] at hleads
  exact hopened.trans hleads

/-- The update of a run that is cleared is made in the world that all calls before it have left. -/
theorem Cleared.world_eq (h : Cleared cs request w cancelled m v) :
    v.world = cs.after w v.calls := by
  rw [h.leads.world, h.leads.calls]
  rfl

/-- A run is cleared only if the versions of all uploads can be read. -/
theorem Cleared.exists_requests (h : Cleared cs request w cancelled m v) :
    ∃ requests, m.releases.mapM Release.uploadRequest? = .ok requests := by
  obtain ⟨summary, t, -, happroval, -⟩ := h
  exact mapM_of_exec_approval happroval

/-- A run that is cleared updates the deployment, and that is the last of its calls. -/
theorem Cleared.calls_eq (h : Cleared cs request w cancelled m v) :
    calls cs request w cancelled = v.calls ++ [.update ⟨m.bytes, request.options⟩] := by
  obtain ⟨summary, t, hopening, happroval, hv⟩ := h
  rw [calls_eq_exec, steps_eq, exec_bind, hopening]
  simp only [exec_bind, happroval, commit, exec_proceed, exec_attempt, hv]
  rcases cs.update ⟨m.bytes, request.options⟩ v.world with ⟨(e | a) | _, w'⟩ <;>
    simp [State.called]

/-- A run updates the deployment only if it is cleared, and with the manifest that it is cleared
for. -/
theorem exists_cleared_of_update {u : UpdateRequest}
    (h : .update u ∈ calls cs request w cancelled) :
    ∃ m v, Cleared cs request w cancelled m v ∧ u = ⟨m.bytes, request.options⟩ := by
  have hexec := h
  rw [calls_eq_exec, steps_eq, exec_bind] at hexec
  have hopening :
      Call.update u ∉ ((opening cs request).exec { world := w, cancelled }).2.calls := by
    refine keeps_opening.notMem_calls List.not_mem_nil fun hmem => ?_
    rcases List.mem_append.1 hmem with hload | hsay
    · obtain ⟨source, hsource⟩ := exists_load_of_mem hload
      cases hsource
    · cases List.mem_singleton.1 hsay
  rcases hopened : (opening cs request).exec { world := w, cancelled } with ⟨e | m, t⟩
  · rw [hopened] at hexec hopening
    exact absurd hexec hopening
  · rw [hopened] at hexec hopening
    simp only [exec_bind] at hexec
    have huploads : Call.update u ∉ ((approval cs m).exec t).2.calls :=
      (keeps_approval m).notMem_calls hopening (by simp [approvalCalls, reviewCalls])
    rcases happroval : (approval cs m).exec t with ⟨e | summary, v⟩
    · rw [happroval] at hexec huploads
      exact absurd hexec huploads
    · rw [happroval] at hexec huploads
      cases hv : v.cancelled with
      | true =>
        simp only [commit, exec_bind, exec_proceed, hv, if_true] at hexec
        exact absurd hexec huploads
      | false =>
        have hcleared : Cleared cs request w cancelled m v := ⟨summary, t, hopened, happroval, hv⟩
        rw [hcleared.calls_eq, List.mem_append, List.mem_singleton] at h
        exact ⟨m, v, hcleared, Call.update.inj (h.resolve_left huploads)⟩

/-- The last stage succeeds if the run has not been cancelled before and the update succeeds. -/
theorem exec_commit_eq_ok_iff {u : UpdateRequest} :
    (∃ t, (commit cs u).exec s = (.ok (), t)) ↔
      s.cancelled = false ∧ ∃ flag, (cs.update u s.world).1 = .returned (.ok ()) flag := by
  constructor
  · rintro ⟨t, h⟩
    obtain ⟨_, _, hcall, -⟩ := exec_bind_eq_ok_iff.1 h
    obtain ⟨hs, flag, w', hreply, -⟩ := exec_proceed_eq_ok_iff.1 hcall
    exact ⟨hs, flag, by rw [hreply]⟩
  · rintro ⟨hs, flag, hreply⟩
    have hcall : (proceed (attempt (.update u) .update (cs.update u))).exec s =
        (.ok (), s.called (.update u) (cs.update u s.world).2 flag) :=
      exec_proceed_eq_ok_iff.2 ⟨hs, flag, _, Prod.ext hreply rfl, rfl⟩
    exact ⟨_, exec_bind_eq_ok_iff.2 ⟨(), _, hcall, exec_advance _⟩⟩

/-- A run succeeds if it is cleared and the update succeeds, also if the run is cancelled during the
update. -/
theorem result_eq_ok_iff_cleared :
    (∃ report, result cs request w cancelled = .ok report) ↔
      ∃ m v flag, Cleared cs request w cancelled m v ∧
        (cs.update ⟨m.bytes, request.options⟩ v.world).1 = .returned (.ok ()) flag := by
  rw [result_eq_ok_iff, steps_eq]
  constructor
  · rintro ⟨summary, s, h⟩
    obtain ⟨m, t, hopening, h⟩ := exec_bind_eq_ok_iff.1 h
    obtain ⟨summary', v, happroval, h⟩ := exec_bind_eq_ok_iff.1 h
    obtain ⟨_, u, hcommit, -⟩ := exec_bind_eq_ok_iff.1 h
    obtain ⟨hv, flag, hreply⟩ := exec_commit_eq_ok_iff.1 ⟨u, hcommit⟩
    exact ⟨m, v, flag, ⟨summary', t, hopening, happroval, hv⟩, hreply⟩
  · rintro ⟨m, v, flag, ⟨summary, t, hopening, happroval, hv⟩, hreply⟩
    obtain ⟨u, hcommit⟩ := exec_commit_eq_ok_iff.2 ⟨hv, flag, hreply⟩
    refine ⟨summary, u, exec_bind_eq_ok_iff.2 ⟨m, t, hopening, ?_⟩⟩
    refine exec_bind_eq_ok_iff.2 ⟨summary, v, happroval, ?_⟩
    exact exec_bind_eq_ok_iff.2 ⟨(), u, hcommit, rfl⟩

/-- A run succeeds if its last call is the update and the update succeeds. -/
theorem result_eq_ok_iff_update :
    (∃ report, result cs request w cancelled = .ok report) ↔
      ∃ before u flag, calls cs request w cancelled = before ++ [.update u] ∧
        (cs.update u (cs.after w before)).1 = .returned (.ok ()) flag := by
  constructor
  · intro h
    obtain ⟨m, v, flag, hcleared, hreply⟩ := result_eq_ok_iff_cleared.1 h
    exact ⟨v.calls, _, flag, hcleared.calls_eq, by rw [← hcleared.world_eq]; exact hreply⟩
  · rintro ⟨before, u, flag, hcalls, hreply⟩
    have hmem : .update u ∈ calls cs request w cancelled := by
      rw [hcalls]
      exact List.mem_append_right _ List.mem_cons_self
    obtain ⟨m, v, hcleared, rfl⟩ := exists_cleared_of_update hmem
    obtain ⟨rfl, -⟩ := List.append_inj' (hcalls.symm.trans hcleared.calls_eq) rfl
    rw [← hcleared.world_eq] at hreply
    exact result_eq_ok_iff_cleared.2 ⟨m, v, flag, hcleared, hreply⟩

/-! ## Runs that end early -/

/-- A run whose first stage fails ends with it. -/
theorem final_of_exec_opening_error {e : DeployError}
    (h : (opening cs request).exec { world := w, cancelled } = (.error e, t)) :
    result cs request w cancelled = .error e ∧
      final cs request w cancelled = { t with phase := .aborted } := by
  rw [result, final, execute, ← RunM.exec, steps_eq, exec_bind, h]
  exact ⟨rfl, rfl⟩

/-- A run whose first stage succeeds goes on from there. -/
theorem steps_of_exec_opening
    (h : (opening cs request).exec { world := w, cancelled } = (.ok m, t)) :
    t.steps <+: (final cs request w cancelled).steps := by
  obtain ⟨made, hmade⟩ : Keeps cs _ t _ := keeps_approval_commit m request.options
  refine List.IsPrefix.trans ?_ steps_prefix_final
  rw [steps_eq, exec_bind, h]
  exact hmade.leads.steps

/-- The manifest of a run has been validated if there is one, the run was not cancelled before, and
no source has been abandoned. -/
theorem validated_mem_steps_iff :
    .validated ∈ (final cs request w cancelled).steps ↔
      cancelled = false ∧ cs.allReturn w (loads request.vars.sources) = true ∧
        ∃ m, document cs.deployment request = .ok m := by
  rcases hopening : (opening cs request).exec { world := w, cancelled } with ⟨e | m, t⟩
  · obtain ⟨-, -, -, -, -, hsteps⟩ := exec_opening_error hopening
    rw [(final_of_exec_opening_error hopening).2]
    constructor
    · intro hmem
      cases List.mem_singleton.1 (hsteps.subset hmem)
    · rintro ⟨hc, hreturn, m, hm⟩
      rw [exec_opening_eq_ok_iff.2 ⟨hc, hm, hreturn, rfl⟩] at hopening
      cases (Prod.mk.inj hopening).1
  · obtain ⟨hc, hm, hreturn, ht⟩ := exec_opening_eq_ok_iff.1 hopening
    have hmem : .validated ∈ t.steps := by
      rw [ht]
      exact List.mem_append_right _ List.mem_cons_self
    exact iff_of_true ((steps_of_exec_opening hopening).subset hmem) ⟨hc, hreturn, m, hm⟩

/-- A run that ends before its manifest has been validated fails, and all that it has done is to
load sources. -/
theorem loads_of_validated_notMem (h : .validated ∉ (final cs request w cancelled).steps) :
    (∃ e, result cs request w cancelled = .error e) ∧
      ∀ c ∈ calls cs request w cancelled,
        ∃ source ∈ request.vars.sources, c = .load source.name := by
  rcases hopening : (opening cs request).exec { world := w, cancelled } with ⟨e | m, t⟩
  · obtain ⟨hresult, hfinal⟩ := final_of_exec_opening_error hopening
    refine ⟨⟨e, hresult⟩, fun c hc => ?_⟩
    obtain ⟨made, hmade, hleads, -⟩ := exec_opening_error hopening
    rw [calls, hfinal, hleads.calls] at hc
    obtain ⟨source, hsource, rfl⟩ := List.mem_map.1 ((loadCalls_within _).subset (hmade.subset hc))
    exact ⟨source, hsource, rfl⟩
  · obtain ⟨hc, hm, hreturn, -⟩ := exec_opening_eq_ok_iff.1 hopening
    exact absurd (validated_mem_steps_iff.2 ⟨hc, hreturn, m, hm⟩) h

/-! ## Main statements -/

/-- A run updates the deployment if and only if it has not been cancelled before, all sources can be
loaded, the manifest can be interpolated and read and declares the deployment, the run is not
cancelled while the sources are loaded and the deployment is named, and the manifest is approved.
The run succeeds if and only if it makes the update and the update returns a success. A run gets to
validate its manifest if there is one, even if it is cancelled while a source is loaded, as long as
the source is not abandoned. A run that does not get there fails, and all that it does is to load
sources. -/
theorem update_called_iff (cs : Collaborators σ) (request : DeployRequest) (w : σ)
    (cancelled : Bool) :
    ((∃ u, .update u ∈ calls cs request w cancelled) ↔
      cancelled = false ∧ ∃ vars text m, Program.loadAll request.vars = .ok vars ∧
        interpolate request.manifest vars = .ok text ∧ Manifest.parse text.toUTF8 = .ok m ∧
        m.name = cs.deployment ∧ cs.anyStruck w (openingCalls cs request) = false ∧
        Approved cs (cs.after w (openingCalls cs request)) m) ∧
      ((∃ report, result cs request w cancelled = .ok report) ↔
        ∃ before u flag, calls cs request w cancelled = before ++ [.update u] ∧
          (cs.update u (cs.after w before)).1 = .returned (.ok ()) flag) ∧
      (.validated ∈ (final cs request w cancelled).steps ↔
        cancelled = false ∧ cs.allReturn w (loads request.vars.sources) = true ∧
          ∃ vars text m, Program.loadAll request.vars = .ok vars ∧
            interpolate request.manifest vars = .ok text ∧ Manifest.parse text.toUTF8 = .ok m ∧
            m.name = cs.deployment) ∧
      (.validated ∉ (final cs request w cancelled).steps →
        (∃ e, result cs request w cancelled = .error e) ∧
          ∀ c ∈ calls cs request w cancelled,
            ∃ source ∈ request.vars.sources, c = .load source.name) := by
  refine ⟨⟨?_, ?_⟩, result_eq_ok_iff_update, ?_, loads_of_validated_notMem⟩
  · rintro ⟨u, hu⟩
    obtain ⟨m, v, hcleared, -⟩ := exists_cleared_of_update hu
    obtain ⟨hc, hopened, hm, happroved⟩ := exists_cleared_iff.1 ⟨v, hcleared⟩
    obtain ⟨vars, text, hvars, htext, hparse, hname⟩ := document_eq_ok_iff.1 hm
    exact ⟨hc, vars, text, m, hvars, htext, hparse, hname, hopened, happroved⟩
  · rintro ⟨hc, vars, text, m, hvars, htext, hparse, hname, hopened, happroved⟩
    have hm := document_eq_ok_iff.2 ⟨vars, text, hvars, htext, hparse, hname⟩
    obtain ⟨v, hcleared⟩ := exists_cleared_iff.2 ⟨hc, hopened, hm, happroved⟩
    refine ⟨⟨m.bytes, request.options⟩, ?_⟩
    rw [hcleared.calls_eq]
    exact List.mem_append_right _ List.mem_cons_self
  · rw [validated_mem_steps_iff]
    refine and_congr_right fun _ => and_congr_right fun _ => ?_
    constructor
    · rintro ⟨m, hm⟩
      obtain ⟨vars, text, h⟩ := document_eq_ok_iff.1 hm
      exact ⟨vars, text, m, h⟩
    · rintro ⟨vars, text, m, h⟩
      exact ⟨m, document_eq_ok_iff.2 ⟨vars, text, h⟩⟩

/-- What has been reviewed is applied. The bytes of an update are what interpolation makes of the
manifest of the request, and they are those of the one diff that has been fetched and shown; its
options are those of the request; and the uploads before it are, in order, those that the releases
in these bytes need. -/
theorem update_applies_reviewed (cs : Collaborators σ) (request : DeployRequest) (w : σ)
    (cancelled : Bool) (u : UpdateRequest) (h : .update u ∈ calls cs request w cancelled) :
    ∃ vars text m requests, ∃ lines : List DiffLine, Program.loadAll request.vars = .ok vars ∧
      interpolate request.manifest vars = .ok text ∧ u.manifest = text.toUTF8 ∧
      u.options = request.options ∧ Manifest.parse u.manifest = .ok m ∧
      m.releases.mapM Release.uploadRequest? = .ok requests ∧
      calls cs request w cancelled =
        request.vars.sources.map (.load ·.name) ++
          [.say (banner cs.deployment), .diff u.manifest] ++
          lines.map (.say ·.render) ++
          [.confirm] ++ (requests.filterMap id).map .upload ++ [.update u] := by
  obtain ⟨m, v, hcleared, rfl⟩ := exists_cleared_of_update h
  obtain ⟨-, -, hm, -⟩ := exists_cleared_iff.1 ⟨v, hcleared⟩
  obtain ⟨vars, text, hvars, htext, hparse, -⟩ := document_eq_ok_iff.1 hm
  obtain ⟨requests, hrequests⟩ := hcleared.exists_requests
  have hbytes : m.bytes = text.toUTF8 := bytes_of_parse hparse
  refine ⟨vars, text, m, requests, cs.fetched (cs.after w (openingCalls cs request)) m.bytes, hvars,
    htext, hbytes, rfl, ?_, hrequests, ?_⟩
  · rw [hbytes]
    exact hparse
  · rw [hcleared.calls_eq, hcleared.leads.calls, openingCalls, loads, approvalCalls,
      reviewCalls, uploads_eq_of_mapM hrequests]
    simp

/-- The sample run updates with what it has interpolated. -/
theorem update_applies_reviewed_sample :
    .update ⟨sampleRequest.manifest, {}⟩ ∈
        calls sampleScript.collaborators sampleRequest {} false ∧
      ∃ vars text, Program.loadAll sampleRequest.vars = .ok vars ∧
        interpolate sampleRequest.manifest vars = .ok text ∧
        sampleRequest.manifest = text.toUTF8 := by
  have hmem : .update ⟨sampleRequest.manifest, {}⟩ ∈
      calls sampleScript.collaborators sampleRequest {} false := by
    simp [calls_sample]
  obtain ⟨vars, text, m, requests, lines, hvars, htext, hbytes, -⟩ :=
    update_applies_reviewed sampleScript.collaborators sampleRequest {} false _ hmem
  exact ⟨hmem, vars, text, hvars, htext, hbytes⟩

end Rollout.Deploy
