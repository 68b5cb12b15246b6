import Rollout.Proofs.Deploy.Clearance

/-!
# The report of a run

A successful run gives a report. `report_tells_run` says that the report tells what the run did: it
has gone through all phases in order, the uploads in the report are the upload calls with what they
returned, and every release of the manifest is either uploaded or skipped.

The phases are counted part by part: `Enters` says how many of them a part of a run enters if it
succeeds. The uploads are read off the calls by `Collaborators.uploadReplies`, which makes the calls
once more and notes the replies.
-/

namespace Rollout

variable {σ α : Type}

/-- What a call has brought, if it has returned a result. -/
def Reply.outcome? : Reply (Except Failure α) → Option α
  | .returned (.ok a) _ => some a
  | _ => none

namespace Collaborators

/-- The uploads among some calls, made one after the other, each with its reply. -/
def uploadReplies (cs : Collaborators σ) :
    σ → List Call → List (UploadRequest × Reply (Except Failure UploadOutcome))
  | _, [] => []
  | w, .upload r :: calls => (r, (cs.upload r w).1) :: cs.uploadReplies (cs.upload r w).2 calls
  | w, c :: calls => cs.uploadReplies (cs.act w c) calls

variable (cs : Collaborators σ) (w : σ)

@[simp] theorem uploadReplies_nil : cs.uploadReplies w [] = [] := rfl

/-- The replies to uploads are collected in the order of the calls. -/
@[simp] theorem uploadReplies_upload (r : UploadRequest) (calls : List Call) :
    cs.uploadReplies w (.upload r :: calls) =
      (r, (cs.upload r w).1) :: cs.uploadReplies (cs.upload r w).2 calls := rfl

/-- A call that uploads nothing only changes the world. -/
theorem uploadReplies_cons {c : Call} (h : ∀ r, c ≠ .upload r) (calls : List Call) :
    cs.uploadReplies w (c :: calls) = cs.uploadReplies (cs.act w c) calls := by
  cases c with
  | upload r => exact absurd rfl (h r)
  | _ => rfl

/-- Later uploads find the world that the calls before them have left. -/
theorem uploadReplies_append (calls calls' : List Call) :
    cs.uploadReplies w (calls ++ calls') =
      cs.uploadReplies w calls ++ cs.uploadReplies (cs.after w calls) calls' := by
  induction calls generalizing w with
  | nil => rfl
  | cons c calls ih =>
    cases c with
    | upload r =>
      rw [List.cons_append, uploadReplies_upload, uploadReplies_upload, ih, List.cons_append]
      rfl
    | _ => exact ih _

/-- Calls without an upload have no reply to one. -/
theorem uploadReplies_eq_nil {calls : List Call} (h : ∀ r, .upload r ∉ calls) :
    cs.uploadReplies w calls = [] := by
  induction calls generalizing w with
  | nil => rfl
  | cons c calls ih =>
    have hc : ∀ r, c ≠ .upload r := by
      rintro r rfl
      exact h r List.mem_cons_self
    rw [uploadReplies_cons cs w hc]
    exact ih _ fun r hr => h r (List.mem_cons_of_mem _ hr)

end Collaborators

namespace Deploy

variable {β : Type} {cs : Collaborators σ} {request : DeployRequest} {s t v : State σ} {w : σ}
  {cancelled : Bool} {m : Manifest} {n : Nat}

/-! ## Phases -/

/-- The next phases after another one. -/
def ahead : Nat → Phase → List Phase
  | 0, _ => []
  | n + 1, p => p.target :: ahead n p.target

/-- A part of a run enters the next `n` phases if it succeeds. -/
def Enters (part : RunM σ α) (n : Nat) : Prop :=
  ∀ s a t, part.exec s = (.ok a, t) →
    t.phase = (ahead n s.phase).getLastD s.phase ∧ t.steps = s.steps ++ ahead n s.phase

/-- A part that leaves the phases as they are enters none. -/
theorem Enters.of_eq {part : RunM σ α}
    (h : ∀ s, (part.exec s).2.phase = s.phase ∧ (part.exec s).2.steps = s.steps) :
    Enters part 0 := by
  intro s a t ht
  obtain ⟨hphase, hsteps⟩ := h s
  rw [ht] at hphase hsteps
  exact ⟨hphase, hsteps.trans (List.append_nil _).symm⟩

/-- A part that enters no phase may come before any other. -/
theorem Enters.bind {part : RunM σ α} {f : α → RunM σ β} (h : Enters part 0)
    (hf : ∀ a, Enters (f a) n) : Enters (part >>= f) n := by
  intro s b v hv
  obtain ⟨a, t, ht, hv⟩ := exec_bind_eq_ok_iff.1 hv
  obtain ⟨hphase, hsteps⟩ := h s a t ht
  obtain ⟨hphase', hsteps'⟩ := hf a t b v hv
  rw [hphase] at hphase' hsteps'
  rw [hsteps, ahead, List.append_nil] at hsteps'
  exact ⟨hphase', hsteps'⟩

/-- To advance is to enter one phase more. -/
theorem Enters.advance_bind {part : RunM σ α} (h : Enters part n) :
    Enters (advance >>= fun _ => part) (n + 1) := by
  intro s a t ht
  rw [exec_bind, exec_advance] at ht
  obtain ⟨hphase, hsteps⟩ := h _ a t ht
  rw [ahead, List.getLastD_cons]
  refine ⟨hphase, hsteps.trans ?_⟩
  rw [List.append_assoc]
  rfl

/-- To return a value enters no phase. -/
theorem enters_pure (a : α) : Enters (pure a : RunM σ α) 0 :=
  .of_eq fun _ => ⟨rfl, rfl⟩

/-- To fail enters no phase. -/
theorem enters_throw (e : DeployError) : Enters (throw e : RunM σ α) 0 :=
  .of_eq fun _ => ⟨rfl, rfl⟩

/-- To print a text enters no phase. -/
theorem enters_say (cs : Collaborators σ) (text : String) : Enters (say cs text) 0 :=
  .of_eq fun s => by
    rw [exec_say]
    exact ⟨rfl, rfl⟩

/-- To print the lines of a diff enters no phase. -/
theorem enters_sayLines (cs : Collaborators σ) (lines : List DiffLine) :
    Enters (sayLines cs lines) 0 := by
  refine .of_eq fun s => ?_
  rw [exec_sayLines]
  exact ⟨rfl, rfl⟩

/-- A call enters no phase, whatever it returns. -/
theorem enters_attempt (c : Call) (failed : Failure → DeployError)
    (call : σ → Reply (Except Failure α) × σ) (phase : Phase) :
    Enters (attempt c failed call phase) 0 := by
  refine .of_eq fun s => ?_
  rw [exec_attempt_snd]
  exact ⟨rfl, rfl⟩

/-- A step that is taken enters as many phases as it would by itself. -/
theorem Enters.cancellable {phase : Phase} {step : Phase → RunM σ α} (h : Enters (step phase) n) :
    Enters (cancellable phase step) n := by
  intro s a t ht
  rw [exec_cancellable] at ht
  split at ht
  · cases (Prod.mk.inj ht).1
  · exact h s a t ht

/-- The same for the step towards the next phase. -/
theorem Enters.proceed {step : Phase → RunM σ α} (h : ∀ phase, Enters (step phase) n) :
    Enters (proceed step) n := by
  have htarget : Enters (target : RunM σ Phase) 0 := .of_eq fun _ => ⟨rfl, rfl⟩
  exact htarget.bind fun phase => (h phase).cancellable

/-- The loading of the sources enters no phase, nor does what is made of them. -/
theorem enters_interpolated (cs : Collaborators σ) (request : DeployRequest) :
    Enters (Deploy.proceed (interpolated cs request)) 0 := by
  intro s bytes t ht
  obtain ⟨-, -, -, rfl⟩ := exec_interpolated_eq_ok_iff.1 ht
  exact ⟨rfl, (List.append_nil _).symm⟩

/-- The validation of a manifest enters no phase of its own. -/
theorem enters_validated (deployment : String) (bytes : ByteArray) :
    Enters (validated deployment bytes : RunM σ (Manifest × List Release)) 0 := by
  refine .of_eq fun s => ?_
  rw [exec_validated]
  exact ⟨rfl, rfl⟩

/-- The presentation of the diff enters no phase of its own. -/
theorem enters_presentDiff (cs : Collaborators σ) (manifest : ByteArray) (phase : Phase) :
    Enters (presentDiff cs manifest phase) 0 := by
  refine (enters_attempt _ _ _ _).bind fun lines => ?_
  exact (enters_sayLines cs lines).bind fun _ => enters_pure _

/-- However many releases there are, no phase is entered while they are uploaded. -/
theorem enters_sync (cs : Collaborators σ) (rs : List Release) : Enters (sync cs rs) 0 := by
  induction rs with
  | nil => exact enters_pure _
  | cons r rs ih =>
    rw [sync]
    split
    · exact enters_throw _
    · exact ih.bind fun _ => enters_pure _
    · refine (enters_attempt _ _ _ _).cancellable.bind fun _ => ?_
      exact ih.bind fun _ => enters_pure _

/-- The steps of a run enter six phases; the last one is entered with the report. -/
theorem enters_steps (cs : Collaborators σ) (request : DeployRequest) :
    Enters (steps cs request) 6 := by
  refine (enters_interpolated cs request).bind fun bytes => .advance_bind ?_
  refine (enters_validated cs.deployment bytes).bind fun (manifest, releases) => .advance_bind ?_
  refine (enters_say cs _).bind fun _ => ?_
  refine (Enters.proceed (enters_presentDiff cs _)).bind fun _ => .advance_bind ?_
  refine (Enters.proceed (enters_attempt _ _ _)).bind fun _ => .advance_bind ?_
  refine (enters_sync cs releases).bind fun summary => .advance_bind ?_
  refine (Enters.proceed (enters_attempt _ _ _)).bind fun _ => ?_
  exact .advance_bind (enters_pure summary)

/-! ## Uploads -/

/-- A summary accounts for some releases, the first of which is looked at in the world `w`: its
uploads are the upload calls with what they returned, and each release is uploaded if it has an
address and skipped otherwise. -/
structure Accounts (cs : Collaborators σ) (w : σ) (rs : List Release) (summary : SyncSummary) :
    Prop where
  replies : summary.uploads.map (fun u => (u.1, some u.2)) =
    (cs.uploadReplies w ((uploads rs).map .upload)).map fun u => (u.1.name, u.2.outcome?)
  uploads : summary.uploads.map (·.1) = (rs.filter (·.sourceUrl?.isSome)).map (·.name)
  skipped : summary.skipped = (rs.filter (·.sourceUrl?.isNone)).map (·.name)

/-- A release without an address is skipped. -/
theorem Accounts.skip {r : Release} {rs : List Release} {summary : SyncSummary}
    (h : Accounts cs w rs summary) (hr : r.uploadRequest? = .ok none) :
    Accounts cs w (r :: rs) { summary with skipped := r.name :: summary.skipped } := by
  have haddress : r.sourceUrl? = none := uploadRequest?_eq_none_iff.1 hr
  have huploads : Deploy.uploads (r :: rs) = Deploy.uploads rs := by rw [Deploy.uploads, hr]; rfl
  refine ⟨?_, ?_, ?_⟩
  · rw [huploads]
    exact h.replies
  · rw [List.filter_cons_of_neg (by simp [haddress])]
    exact h.uploads
  · rw [List.filter_cons_of_pos (by simp [haddress]), List.map_cons, ← h.skipped]

/-- A release with an address is told with what its upload has returned. -/
theorem Accounts.upload {r : Release} {rs : List Release} {summary : SyncSummary} {w' : σ}
    {upload : UploadRequest} {outcome : UploadOutcome} {flag : Bool} (h : Accounts cs w' rs summary)
    (hr : r.uploadRequest? = .ok (some upload))
    (hreply : cs.upload upload w = (.returned (.ok outcome) flag, w')) :
    Accounts cs w (r :: rs)
      { summary with uploads := (upload.name, outcome) :: summary.uploads } := by
  obtain ⟨url, version, haddress, -, hupload⟩ := uploadRequest?_eq_some_iff.1 hr
  have huploads : Deploy.uploads (r :: rs) = upload :: Deploy.uploads rs := by
    rw [Deploy.uploads, hr]
    rfl
  have hname : upload.name = r.name := by rw [hupload]
  refine ⟨?_, ?_, ?_⟩
  · rw [huploads, List.map_cons, List.map_cons, cs.uploadReplies_upload, hreply, List.map_cons,
      h.replies]
    rfl
  · rw [List.filter_cons_of_pos (by simp [haddress]), List.map_cons, List.map_cons, ← h.uploads,
      hname]
  · rw [List.filter_cons_of_neg (by simp [haddress])]
    exact h.skipped

/-- The summary of a synchronisation accounts for its releases. -/
theorem accounts_of_exec_sync {rs : List Release} {summary : SyncSummary}
    (h : (sync cs rs).exec s = (.ok summary, t)) : Accounts cs s.world rs summary := by
  induction rs generalizing s t summary with
  | nil =>
    obtain rfl := Except.ok.inj (Prod.mk.inj h).1
    exact ⟨rfl, rfl, rfl⟩
  | cons r rs ih =>
    rw [sync] at h
    split at h
    · cases (Prod.mk.inj h).1
    · obtain ⟨rest, u, hrest, h⟩ := exec_bind_eq_ok_iff.1 h
      obtain rfl := Except.ok.inj (Prod.mk.inj h).1
      exact (ih hrest).skip ‹_›
    · obtain ⟨outcome, u, hcall, h⟩ := exec_bind_eq_ok_iff.1 h
      obtain ⟨rest, u', hrest, h⟩ := exec_bind_eq_ok_iff.1 h
      obtain rfl := Except.ok.inj (Prod.mk.inj h).1
      obtain ⟨-, flag, w', hreply, rfl⟩ := exec_cancellable_eq_ok_iff.1 hcall
      exact (ih hrest).upload ‹_› hreply

/-- A summary that accounts for some releases names each of them once. -/
theorem Accounts.perm {rs : List Release} {summary : SyncSummary} (h : Accounts cs w rs summary) :
    (summary.uploads.map (·.1) ++ summary.skipped).Perm (rs.map (·.name)) := by
  have hpart : (rs.filter (·.sourceUrl?.isSome) ++ rs.filter (!·.sourceUrl?.isSome)).Perm rs :=
    List.filter_append_perm _ rs
  rw [h.uploads, h.skipped, ← List.map_append]
  simpa using hpart.map (·.name)

/-! ## Runs that succeed -/

/-- The part of a run that shows a manifest and asks the user. -/
def review (cs : Collaborators σ) (manifest : Manifest) : RunM σ Unit := do
  let _ ← proceed (presentDiff cs manifest.bytes)
  advance
  proceed (attempt .confirm .confirmationRejected cs.confirm)
  advance

/-- The releases are uploaded after the manifest has been reviewed. -/
theorem approval_eq (cs : Collaborators σ) (manifest : Manifest) :
    approval cs manifest = (do
      review cs manifest
      let summary ← sync cs manifest.releases
      advance
      return summary) := by
  simp only [approval, review, confirmation, bind_assoc]

/-- The calls that show a manifest and ask the user. -/
theorem keeps_review (m : Manifest) :
    Keeps cs (review cs m) s (reviewCalls cs s.world m ++ [.confirm]) := by
  refine (keeps_presentDiff m.bytes).bind fun _ t _ => ?_
  refine keeps_advance.bind_of_nil fun _ t _ => ?_
  exact Keeps.bind_nil (keeps_proceed_attempt rfl rfl (by rfl)) fun _ _ => keeps_advance

/-- The summary of the second stage accounts for the releases from the time when the user has
confirmed. -/
theorem accounts_of_exec_approval {summary : SyncSummary}
    (h : (approval cs m).exec s = (.ok summary, t)) :
    Accounts cs (cs.after s.world (reviewCalls cs s.world m ++ [.confirm])) m.releases summary := by
  rw [approval_eq] at h
  obtain ⟨_, u, hreview, h⟩ := exec_bind_eq_ok_iff.1 h
  obtain ⟨summary', v, hsync, h⟩ := exec_bind_eq_ok_iff.1 h
  obtain rfl : summary' = summary := Except.ok.inj (Prod.mk.inj h).1
  obtain ⟨made, hmade⟩ : Keeps cs (review cs m) s _ := keeps_review m
  rw [← hmade.made_eq hreview, ← (hmade.leads_of_exec hreview).world]
  exact accounts_of_exec_sync hsync

/-- The world in which the first upload of a run is made. -/
def confirmedWorld (cs : Collaborators σ) (request : DeployRequest) (w : σ) (m : Manifest) : σ :=
  let opened := cs.after w (openingCalls cs request)
  cs.after opened (reviewCalls cs opened m ++ [.confirm])

/-- The uploads of a run that is cleared are made once the user has confirmed. -/
theorem Cleared.uploadReplies_eq (h : Cleared cs request w cancelled m v) :
    cs.uploadReplies w (calls cs request w cancelled) =
      cs.uploadReplies (confirmedWorld cs request w m) ((uploads m.releases).map .upload) := by
  have hcalls : calls cs request w cancelled = openingCalls cs request ++
      ((reviewCalls cs (cs.after w (openingCalls cs request)) m ++ [.confirm]) ++
        ((uploads m.releases).map .upload ++ [.update ⟨m.bytes, request.options⟩])) := by
    rw [h.calls_eq, h.leads.calls, approvalCalls]
    simp
  have hopening : cs.uploadReplies w (openingCalls cs request) = [] :=
    cs.uploadReplies_eq_nil w (by simp [openingCalls, loads])
  have hreview : ∀ w', cs.uploadReplies w' (reviewCalls cs w' m ++ [.confirm]) = [] :=
    fun w' => cs.uploadReplies_eq_nil w' (by simp [reviewCalls])
  rw [hcalls, cs.uploadReplies_append, hopening, cs.uploadReplies_append, hreview,
    cs.uploadReplies_append, List.nil_append, List.nil_append]
  exact List.append_nil _

/-- A successful run is cleared for a manifest, and its report is made of the phases that it has
entered and of a summary that accounts for the releases of that manifest. -/
theorem exists_cleared_of_result {report : DeployReport}
    (h : result cs request w cancelled = .ok report) :
    ∃ m v summary, Cleared cs request w cancelled m v ∧
      Accounts cs (confirmedWorld cs request w m) m.releases summary ∧
      report = ⟨cs.deployment, .done, Phase.sequence.tail, summary.uploads, summary.skipped⟩ := by
  rw [result, execute, ← RunM.exec] at h
  rcases hexec : (steps cs request).exec { world := w, cancelled } with ⟨e | summary, u⟩
  · rw [hexec] at h
    cases h
  · rw [hexec] at h
    obtain rfl := Except.ok.inj h
    obtain ⟨hphase, hsteps⟩ := enters_steps cs request _ _ _ hexec
    have hdone : u.phase.target = .done := by rw [hphase]; rfl
    have hsequence : u.steps ++ [u.phase.target] = Phase.sequence.tail := by
      rw [hdone, hsteps]
      rfl
    rw [steps_eq] at hexec
    obtain ⟨m, t, hopening, hexec⟩ := exec_bind_eq_ok_iff.1 hexec
    obtain ⟨summary', v, happroval, hexec⟩ := exec_bind_eq_ok_iff.1 hexec
    obtain ⟨_, u', hcommit, hexec⟩ := exec_bind_eq_ok_iff.1 hexec
    obtain rfl : summary' = summary := Except.ok.inj (Prod.mk.inj hexec).1
    obtain ⟨hv, -⟩ := exec_commit_eq_ok_iff.1 ⟨u', hcommit⟩
    have haccounts := accounts_of_exec_approval happroval
    rw [(leads_of_exec_opening hopening).world] at haccounts
    refine ⟨m, v, summary', ⟨summary', t, hopening, happroval, hv⟩, haccounts, ?_⟩
    rw [hdone] at hsequence ⊢
    rw [hsequence]

/-- The report of a successful run tells what it did. It names the deployment, and the run is done:
it has entered every phase after the first one once and in order and has not been aborted. The
uploads in the report are, one by one and in order, the upload calls of the run, with the name of
the release and the outcome that the call returned. The manifest that interpolation gives has been
read; its releases without an address are those that were skipped, in order, its releases with an
address are those that were uploaded, and so each release is accounted for once. As many releases
count as uploaded as upload calls returned just that. -/
theorem report_tells_run (cs : Collaborators σ) (request : DeployRequest) (w : σ)
    (cancelled : Bool) (report : DeployReport)
    (h : result cs request w cancelled = .ok report) :
    report.deployment = cs.deployment ∧ report.phase = .done ∧
      .start :: report.steps = Phase.sequence ∧ report.steps.Nodup ∧ .aborted ∉ report.steps ∧
      report.uploads.map (fun u => (u.1, some u.2)) =
        (cs.uploadReplies w (calls cs request w cancelled)).map
          (fun u => (u.1.name, u.2.outcome?)) ∧
      (∃ vars text m, Program.loadAll request.vars = .ok vars ∧
        interpolate request.manifest vars = .ok text ∧ Manifest.parse text.toUTF8 = .ok m ∧
        report.skipped = (m.releases.filter (·.sourceUrl?.isNone)).map (·.name) ∧
        report.uploads.map (·.1) = (m.releases.filter (·.sourceUrl?.isSome)).map (·.name) ∧
        (report.uploads.map (·.1) ++ report.skipped).Perm (m.releases.map (·.name))) ∧
      report.uploadedCount =
        (cs.uploadReplies w (calls cs request w cancelled)).countP
          (·.2.outcome? = some .uploaded) := by
  obtain ⟨m, v, summary, hcleared, haccounts, rfl⟩ := exists_cleared_of_result h
  obtain ⟨-, -, hm, -⟩ := exists_cleared_iff.1 ⟨v, hcleared⟩
  obtain ⟨vars, text, hvars, htext, hparse, -⟩ := document_eq_ok_iff.1 hm
  have hreplies := haccounts.replies
  rw [← hcleared.uploadReplies_eq] at hreplies
  have hnodup : Phase.sequence.tail.Nodup := by decide
  have hrunning : Phase.aborted ∉ Phase.sequence.tail := by decide
  refine ⟨rfl, rfl, rfl, hnodup, hrunning, hreplies, ?_, ?_⟩
  · exact ⟨vars, text, m, hvars, htext, hparse, haccounts.skipped, haccounts.uploads,
      haccounts.perm⟩
  · have hcount := congrArg (List.countP fun u => u.2 = some UploadOutcome.uploaded) hreplies
    rw [List.countP_map, List.countP_map] at hcount
    simpa [DeployReport.uploadedCount, Function.comp_def] using hcount

/-- A manifest with a release to be uploaded, one that is there already, and one without an
address. -/
def mixedRequest : DeployRequest where
  manifest := ("name: web\nreleases:\n- name: a\n  version: 1\n  url: local\n" ++
    "- name: b\n  version: 1\n- name: c\n  version: 2\n  url: remote\n").toUTF8
  vars := ⟨[], []⟩
  options := {}

/-- Collaborators that have the second of the uploaded releases already. -/
def mixedScript : Script where
  deployment := "web"
  uploads := [.ok .uploaded, .ok .alreadyPresent]

/-- One of the releases is uploaded in fact, one is there already, and one is skipped. -/
def mixedReport : DeployReport where
  deployment := "web"
  phase := .done
  steps := Phase.sequence.tail
  uploads := [("a", .uploaded), ("c", .alreadyPresent)]
  skipped := ["b"]

/-- The report of that run, which counts one upload. -/
theorem report_tells_run_mixed :
    result mixedScript.collaborators mixedRequest {} false = .ok mixedReport ∧
      mixedReport.uploadedCount = 1 ∧
      1 = (mixedScript.collaborators.uploadReplies {}
        (calls mixedScript.collaborators mixedRequest {} false)).countP
          (·.2.outcome? = some .uploaded) := by
  have h : result mixedScript.collaborators mixedRequest {} false = .ok mixedReport :=
    toOption_eq_some_iff.1 (by decide +kernel)
  obtain ⟨-, -, -, -, -, -, -, hcount⟩ := report_tells_run _ _ _ _ mixedReport h
  exact ⟨h, rfl, hcount⟩

end Deploy

end Rollout
