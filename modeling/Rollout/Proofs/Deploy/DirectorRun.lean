import Mathlib.Data.List.Basic
import Rollout.Deploy.Desk
import Rollout.Proofs.Deploy.Clearance
import Rollout.Proofs.Director.Conversation
import Rollout.Proofs.Version.Order

/-!
# Runs against a director

What a run says to a director. The requests of a run, with what becomes of them, are a conversation
(`RunTalk`): the diff of the manifest, then one talk about each release that has an address, in the
order of the manifest, and then one about the update. Each part begins only when the part before it
has come to a good end, and the run succeeds only if the update does, wherever it ends and whatever
the director answers. The main statement is `director_requests_follow_plan`.

`Spoken` says what a part of a run has to do with the director: the conversation that it has, given
what the part comes to. As everywhere in a run, the parts are looked at one by one and put together
by `Spoken.bind`.
-/

namespace Rollout

/-- Whether a call has returned a success. -/
def Reply.succeeded {α : Type} : Reply (Except Failure α) → Bool
  | .returned (.ok _) _ => true
  | _ => false

namespace Deploy

open Director

variable {σ α β : Type} {link : Link σ} {deployment : String}

/-! ## The conversation of a run -/

/-- The releases of a manifest that have an address have all been found or uploaded, in order. -/
inductive Synced : List Release → List Exchange → Prop
  | nil : Synced [] []
  | skip {r : Release} {rs : List Release} {log : List Exchange} (noAddress : r.sourceUrl? = none)
    (rest : Synced rs log) : Synced (r :: rs) log
  | release {r : Release} {rs : List Release} {url : String} {first log : List Exchange}
    (address : r.sourceUrl? = some url) (ready : ReleaseReady r.name r.version url r.sha1 first)
    (rest : Synced rs log) : Synced (r :: rs) (first ++ log)

/-- The first of the releases that have an address have been found or uploaded, in order, and the
talk about the next one may have begun. -/
inductive Syncing : List Release → List Exchange → Prop
  | stopped (rs : List Release) : Syncing rs []
  | skip {r : Release} {rs : List Release} {log : List Exchange} (noAddress : r.sourceUrl? = none)
    (rest : Syncing rs log) : Syncing (r :: rs) log
  | last {r : Release} {rs : List Release} {url : String} {log : List Exchange}
    (address : r.sourceUrl? = some url) (talk : ReleaseTalk r.name r.version url r.sha1 log) :
    Syncing (r :: rs) log
  | release {r : Release} {rs : List Release} {url : String} {first log : List Exchange}
    (address : r.sourceUrl? = some url) (ready : ReleaseReady r.name r.version url r.sha1 first)
    (rest : Syncing rs log) : Syncing (r :: rs) (first ++ log)

/-- The beginning of the conversation of a run, up to any point at which the run may end. -/
inductive RunTalk (deployment : String) (m : Manifest) (options : UpdateOptions) :
    List Exchange → Prop
  | silent : RunTalk deployment m options []
  | diff {x : Exchange} (asked : x.request = .diff deployment m.bytes) :
    RunTalk deployment m options [x]
  | syncing {x : Exchange} {log : List Exchange} (asked : x.request = .diff deployment m.bytes)
    (fetched : x.diff?.isSome = true) (releases : Syncing m.releases log) :
    RunTalk deployment m options (x :: log)
  | updating {x : Exchange} {log update : List Exchange} {last : Option Task}
    (asked : x.request = .diff deployment m.bytes) (fetched : x.diff?.isSome = true)
    (releases : Synced m.releases log)
    (talk : TaskTalk (.update m.bytes options) update last) :
    RunTalk deployment m options (x :: (log ++ update))

/-- The whole conversation of a run that succeeds. -/
inductive RunDone (deployment : String) (m : Manifest) (options : UpdateOptions) :
    List Exchange → Prop
  | updated {x : Exchange} {log update : List Exchange}
    (asked : x.request = .diff deployment m.bytes) (fetched : x.diff?.isSome = true)
    (releases : Synced m.releases log) (done : TaskDone (.update m.bytes options) update) :
    RunDone deployment m options (x :: (log ++ update))

/-! ## Conversations in order -/

variable {rs : List Release} {m : Manifest} {options : UpdateOptions} {x : Exchange}
  {log : List Exchange}

/-- Once the releases are there, everything that has been asked has come out well. -/
theorem Synced.isGood (h : Synced rs log) : ∀ x ∈ log, x.isGood = true := by
  induction h with
  | nil => exact fun x hx => nomatch hx
  | skip noAddress rest ih => exact ih
  | release address ready rest ih =>
    intro x hx
    rcases List.mem_append.1 hx with hx | hx
    · exact ready.isGood x hx
    · exact ih x hx

/-- The exchanges of a synchronisation are in order. -/
theorem Syncing.orderly (h : Syncing rs log) : Orderly log := by
  induction h with
  | stopped rs => exact fun x hx => nomatch hx
  | skip noAddress rest ih => exact ih
  | last address talk => exact talk.orderly
  | release address ready rest ih => exact ih.append ready.isGood

/-- A diff that can be read has come out well. -/
theorem isGood_of_diff {manifest : ByteArray} (hx : x.request = .diff deployment manifest)
    (hdiff : x.diff?.isSome = true) : x.isGood = true := by
  simp [Exchange.isGood, hx, hdiff]

/-- The exchanges of a run are in order. -/
theorem RunTalk.orderly (h : RunTalk deployment m options log) : Orderly log := by
  cases h with
  | silent => exact fun x hx => nomatch hx
  | diff asked => exact orderly_singleton _
  | syncing asked fetched releases =>
    exact releases.orderly.cons (isGood_of_diff asked fetched)
  | updating asked fetched releases talk =>
    exact ((talk.orderly rfl).append releases.isGood).cons (isGood_of_diff asked fetched)

/-- Releases are not updated. -/
theorem Syncing.isUpdate (h : Syncing rs log) : ∀ x ∈ log, x.request.isUpdate = false := by
  induction h with
  | stopped rs => exact fun x hx => nomatch hx
  | skip noAddress rest ih => exact ih
  | last address talk => exact talk.isUpdate
  | release address ready rest ih =>
    intro x hx
    rcases List.mem_append.1 hx with hx | hx
    · exact ready.talk.isUpdate x hx
    · exact ih x hx

/-- A synchronisation that has come to its end is one that is under way. -/
theorem Synced.syncing (h : Synced rs log) : Syncing rs log := by
  induction h with
  | nil => exact .stopped _
  | skip noAddress rest ih => exact .skip noAddress ih
  | release address ready rest ih => exact .release address ready ih

/-- After a synchronisation every upload that was begun is done. -/
theorem Synced.uploadsDone (h : Synced rs log) : UploadsDone log := by
  induction h with
  | nil => exact uploadsDone_of_isUpload [] fun x hx => nomatch hx
  | skip noAddress rest ih => exact ih
  | release address ready rest ih => exact ready.uploadsDone.append ih

/-- When the update is asked for, no upload that has been begun is left undone. -/
theorem RunTalk.uploadsDone (h : RunTalk deployment m options log) {before after : List Exchange}
    (hlog : log = before ++ x :: after) (hx : x.request.isUpdate = true) : UploadsDone before := by
  -- the update is not among requests of which none is one
  have hnone : ∀ {first : List Exchange}, (∀ y ∈ first, y.request.isUpdate = false) →
      x ∉ first := by
    intro first hfirst hmem
    rw [hfirst x hmem] at hx
    cases hx
  have hmem : x ∈ log := by
    rw [hlog]
    exact List.mem_append_right _ List.mem_cons_self
  have hasked : ∀ {y : Exchange}, y.request = .diff deployment m.bytes →
      y.request.isUpdate = false := by
    intro y hy
    rw [hy, Request.isUpdate]
  cases h with
  | silent => cases hmem
  | diff asked => exact absurd hmem (hnone (by simp [hasked asked]))
  | syncing asked fetched releases =>
    refine absurd hmem (hnone fun y hy => ?_)
    rcases List.mem_cons.1 hy with rfl | hy
    · exact hasked asked
    · exact releases.isUpdate y hy
  | @updating first log update last asked fetched releases talk =>
    obtain ⟨y, polls, rfl, -, hpolls⟩ := talk.requests
    have hdone : UploadsDone (first :: log) :=
      (uploadsDone_of_isUpload [first] (by simp [asked, Request.isUpload])).append
        releases.uploadsDone
    have hfirst : x ∉ first :: log := by
      refine hnone fun y hy => ?_
      rcases List.mem_cons.1 hy with rfl | hy
      · exact hasked asked
      · exact releases.syncing.isUpdate y hy
    have hlast : x ∉ polls := by
      refine hnone fun y hy => ?_
      obtain ⟨id, hid⟩ := hpolls y hy
      rw [hid, Request.isUpdate]
    rw [← List.cons_append] at hlog
    obtain ⟨rfl, -, -⟩ := (List.append_cons_inj_of_notMem hfirst hlast).1 hlog
    exact hdone

/-! ## What a part of a run says -/

/-- A part of a run has a conversation with the director of which `P` holds, given whether the part
succeeds. -/
def Spoken (link : Link σ) (m : RunM (Desk σ) α) (s : State (Desk σ))
    (P : Bool → List Exchange → Prop) : Prop :=
  ∃ log, Says link s.world.session (m.exec s).2.world.session log ∧ P (m.exec s).1.isOk log

variable {s : State (Desk σ)} {P Q : Bool → List Exchange → Prop}

/-- What is said may be told less exactly. -/
theorem Spoken.mono {m : RunM (Desk σ) α} (h : Spoken link m s P)
    (hPQ : ∀ ok log, P ok log → Q ok log) : Spoken link m s Q := by
  obtain ⟨log, hsays, hlog⟩ := h
  exact ⟨log, hsays, hPQ _ log hlog⟩

/-- The conversations of two parts, one after the other. -/
theorem Spoken.bind {m : RunM (Desk σ) α} {f : α → RunM (Desk σ) β} (h : Spoken link m s P)
    (hfail : ∀ log, P false log → Q false log)
    (hok : ∀ a t log, m.exec s = (.ok a, t) → P true log →
      Spoken link (f a) t fun ok log' => Q ok (log ++ log')) :
    Spoken link (m >>= f) s Q := by
  obtain ⟨log, hsays, hlog⟩ := h
  rcases hm : m.exec s with ⟨e | a, t⟩
  · rw [hm] at hsays hlog
    refine ⟨log, ?_, ?_⟩
    · rw [exec_bind, hm]
      exact hsays
    · rw [exec_bind, hm]
      exact hfail log hlog
  · rw [hm] at hsays hlog
    obtain ⟨log', hsays', hlog'⟩ := hok a t log hm hlog
    refine ⟨log ++ log', ?_, ?_⟩
    · rw [exec_bind, hm]
      exact hsays.trans hsays'
    · rw [exec_bind, hm]
      exact hlog'

/-- A part of a run that has nothing to do with the director may come before any other. -/
theorem spoken_bind_of_session {m : RunM (Desk σ) α} {f : α → RunM (Desk σ) β}
    (h : (m.exec s).2.world.session = s.world.session) (hfail : Q false [])
    (hok : ∀ a t, m.exec s = (.ok a, t) → Spoken link (f a) t Q) :
    Spoken link (m >>= f) s Q := by
  have hsilent : Spoken link m s fun _ log => log = [] := by
    refine ⟨[], ?_, rfl⟩
    rw [h]
    exact .refl _
  refine hsilent.bind ?_ ?_
  · rintro log rfl
    exact hfail
  · rintro a t log ht rfl
    exact hok a t ht

/-- A part of a run may be followed by one that has nothing to do with the director and succeeds. -/
theorem Spoken.bind_quiet {m : RunM (Desk σ) α} {f : α → RunM (Desk σ) β}
    (h : Spoken link m s P)
    (hf : ∀ a t, ((f a).exec t).1.isOk = true ∧
      ((f a).exec t).2.world.session = t.world.session) :
    Spoken link (m >>= f) s P := by
  refine h.bind (fun log hlog => hlog) fun a t log _ hlog => ⟨[], ?_, ?_⟩
  · rw [(hf a t).2]
    exact .refl _
  · rw [(hf a t).1]
    simpa using hlog

/-- What a call says to the director. -/
theorem spoken_attempt {phase : Phase} {c : Call} {failed : Failure → DeployError}
    {call : Desk σ → Reply (Except Failure α) × Desk σ}
    (h : ∃ log, Says link s.world.session (call s.world).2.session log ∧
      P (call s.world).1.succeeded log) :
    Spoken link (attempt c failed call phase) s P := by
  obtain ⟨log, hsays, hlog⟩ := h
  refine ⟨log, ?_, ?_⟩
  · rw [exec_attempt_snd]
    exact hsays
  · rw [exec_attempt]
    generalize call s.world = y at hlog ⊢
    obtain ⟨(e | a) | _, w⟩ := y
    · exact hlog
    · exact hlog
    · exact hlog

/-- What a step says to the director is said if the run has not been cancelled before. -/
theorem spoken_cancellable {phase : Phase} {step : Phase → RunM (Desk σ) α} (hfail : P false [])
    (h : Spoken link (step phase) s P) : Spoken link (cancellable phase step) s P := by
  cases hc : s.cancelled with
  | true =>
    have hexec : (cancellable phase step).exec s = (.error (.cancelled phase), s) := by
      simp [exec_cancellable, hc]
    refine ⟨[], ?_, ?_⟩
    · rw [hexec]
      exact .refl _
    · rw [hexec]
      exact hfail
  | false =>
    have hexec : (cancellable phase step).exec s = (step phase).exec s := by
      simp [exec_cancellable, hc]
    obtain ⟨log, hsays, hlog⟩ := h
    refine ⟨log, ?_, ?_⟩
    · rw [hexec]
      exact hsays
    · rw [hexec]
      exact hlog

/-- The same for the step towards the next phase. -/
theorem spoken_proceed {step : Phase → RunM (Desk σ) α} (hfail : P false [])
    (h : ∀ phase, Spoken link (step phase) s P) : Spoken link (proceed step) s P :=
  spoken_bind_of_session rfl hfail fun phase t ht => by
    obtain rfl : s = t := (Prod.mk.inj ht).2
    exact spoken_cancellable hfail (h phase)

/-! ## The parts of a run -/

/-- A call to the director returns a success if it has one. -/
theorem exists_ok_of_reply {cancelled : Bool} {result : Except Halt α}
    (h : (Desk.reply cancelled result).succeeded = true) : ∃ a, result = .ok a := by
  rcases result with (e | _) | a
  · cases h
  · cases h
  · exact ⟨a, rfl⟩

/-- An upload returns a success if it has one. -/
theorem exists_ok_of_uploadReply {cancelled : Bool} {result : Except UploadHalt α}
    (h : (Desk.uploadReply cancelled result).succeeded = true) : ∃ a, result = .ok a := by
  rcases result with ⟨context, e | _⟩ | a
  · cases h
  · cases h
  · exact ⟨a, rfl⟩

/-- A call that loads a source or says something, and so does not reach the director. -/
def IsLocal (c : Call) : Prop := (∃ source, c = .load source) ∨ ∃ text, c = .say text

/-- The director hears nothing of such calls. -/
theorem session_after (link : Link σ) (deployment : String) {calls : List Call}
    (h : ∀ c ∈ calls, IsLocal c) (d : Desk σ) :
    ((Desk.collaborators link deployment).after d calls).session = d.session := by
  induction calls generalizing d with
  | nil => rfl
  | cons c calls ih =>
    rw [Collaborators.after_cons, ih (fun c' hc' => h c' (List.mem_cons_of_mem _ hc'))]
    rcases h c List.mem_cons_self with ⟨source, rfl⟩ | ⟨text, rfl⟩
    · rfl
    · rfl

/-- Lines are said to the user, not to the director. -/
theorem session_sayLines (link : Link σ) (deployment : String) (lines : List DiffLine) :
    ((sayLines (Desk.collaborators link deployment) lines).exec s).2.world.session =
      s.world.session := by
  rw [exec_sayLines]
  refine session_after link deployment (fun c hc => ?_) s.world
  obtain ⟨line, -, rfl⟩ := List.mem_map.1 hc
  exact .inr ⟨line.render, rfl⟩

/-- The director does not hear what the user answers, or that the user does not answer. -/
theorem session_confirm {failed : Failure → DeployError} (s : State (Desk σ)) :
    ((proceed (attempt .confirm failed (Desk.collaborators link deployment).confirm)).exec
      s).2.world.session = s.world.session := by
  rw [exec_proceed]
  split
  · rfl
  · rw [exec_attempt_snd]
    change s.world.confirm.2.session = s.world.session
    rw [Desk.confirm]
    dsimp only
    split
    · rfl
    · rfl

/-- Nothing is said to the director before a manifest has been validated. -/
theorem session_opening {request : DeployRequest} :
    ((opening (Desk.collaborators link deployment) request).exec s).2.world.session =
      s.world.session := by
  obtain ⟨made, hmade⟩ : Keeps (Desk.collaborators link deployment)
    (opening (Desk.collaborators link deployment) request) s _ := keeps_opening
  rw [hmade.leads.world]
  refine session_after link deployment (fun c hc => ?_) s.world
  rcases List.mem_append.1 (hmade.within.subset hc) with hload | hsay
  · exact .inl (exists_load_of_mem hload)
  · exact .inr ⟨_, List.mem_singleton.1 hsay⟩

/-- The diff of a manifest is asked for once, and it is shown only if it can be read. -/
theorem spoken_presentDiff (manifest : ByteArray) :
    Spoken link (proceed (presentDiff (Desk.collaborators link deployment) manifest)) s
      fun ok log => log = [] ∧ ok = false ∨ ∃ x : Exchange, log = [x] ∧
        x.request = .diff deployment manifest ∧ (ok = true → x.diff?.isSome = true) := by
  obtain ⟨x, hx, hsays, hread⟩ :=
    ask_talk link (.diff deployment manifest) diffOfBody? s.world.session
  refine spoken_proceed (.inl ⟨rfl, rfl⟩) fun phase => ?_
  refine Spoken.bind_quiet ?_ fun lines t => ?_
  · refine spoken_attempt ⟨[x], hsays, .inr ⟨x, rfl, hx, fun hok => ?_⟩⟩
    obtain ⟨lines, hlines⟩ := exists_ok_of_reply hok
    have hasked : ((ask link (.diff deployment manifest) diffOfBody?).run.run s.world.session).1 =
        .ok lines := hlines
    rw [hasked] at hread
    rw [Exchange.diff?, hread]
    rfl
  · have hsession := session_sayLines (s := t) link deployment lines
    rw [exec_bind, exec_sayLines]
    rw [exec_sayLines] at hsession
    exact ⟨rfl, hsession⟩

/-- The releases are looked for, and uploaded if they are not there, one after the other. -/
theorem spoken_sync (rs : List Release) :
    Spoken link (sync (Desk.collaborators link deployment) rs) s fun ok log =>
      Syncing rs log ∧ (ok = true → Synced rs log) := by
  induction rs generalizing s with
  | nil => exact ⟨[], .refl _, .stopped _, fun _ => .nil⟩
  | cons r rs ih =>
    rw [sync]
    cases hr : r.uploadRequest? with
    | error e => exact ⟨[], .refl _, .stopped _, fun hok => absurd hok Bool.false_ne_true⟩
    | ok request? =>
      cases request? with
      | none =>
        have haddress : r.sourceUrl? = none := uploadRequest?_eq_none_iff.1 hr
        refine Spoken.bind_quiet (ih.mono ?_) fun summary t => ⟨rfl, rfl⟩
        rintro ok log ⟨hsyncing, hsynced⟩
        exact ⟨.skip haddress hsyncing, fun hok => .skip haddress (hsynced hok)⟩
      | some q =>
        obtain ⟨url, version, haddress, hversion, rfl⟩ := uploadRequest?_eq_some_iff.1 hr
        obtain ⟨first, hsays, htalk, hready⟩ := ensureRelease_talk link
          ⟨r.name, url, r.sha1, version⟩ s.world.session
        rw [Version.text_of_parse hversion] at htalk hready
        refine (spoken_cancellable (P := fun ok log =>
            (log = [] ∨ ReleaseTalk r.name r.version url r.sha1 log) ∧
              (ok = true → ReleaseReady r.name r.version url r.sha1 log))
          ⟨.inl rfl, fun hok => absurd hok Bool.false_ne_true⟩
          (spoken_attempt ⟨first, hsays, .inr htalk, fun hok => ?_⟩)).bind ?_ ?_
        · obtain ⟨outcome, houtcome⟩ := exists_ok_of_uploadReply hok
          exact hready outcome houtcome
        · rintro log ⟨rfl | htalk, -⟩
          · exact ⟨.stopped _, fun hok => absurd hok Bool.false_ne_true⟩
          · exact ⟨.last haddress htalk, fun hok => absurd hok Bool.false_ne_true⟩
        · rintro outcome t log - ⟨-, hready⟩
          refine Spoken.bind_quiet (ih.mono ?_) fun summary u => ⟨rfl, rfl⟩
          rintro ok rest ⟨hsyncing, hsynced⟩
          exact ⟨.release haddress (hready rfl) hsyncing,
            fun hok => .release haddress (hready rfl) (hsynced hok)⟩

/-- The update is a conversation about one task. -/
theorem spoken_commit (u : UpdateRequest) :
    Spoken link (commit (Desk.collaborators link deployment) u) s fun ok log =>
      (log = [] ∨ ∃ last, TaskTalk (.update u.manifest u.options) log last) ∧
        (ok = true → TaskDone (.update u.manifest u.options) log) := by
  obtain ⟨log, last, hsays, htalk, hdone⟩ :=
    perform_talk link (.update u.manifest u.options) s.world.session
  refine Spoken.bind_quiet ?_ fun _ t => ⟨rfl, rfl⟩
  have hrun : (discard (Director.update link u.manifest u.options)).run.run s.world.session =
      (((perform link (.update u.manifest u.options)).run.run s.world.session).1.map fun _ => ⟨⟩,
        ((perform link (.update u.manifest u.options)).run.run s.world.session).2) := by
    rw [discard, map_const, Director.update]
    exact run_call_map _ _ _
  refine spoken_proceed ⟨.inl rfl, fun hok => nomatch hok⟩ fun phase => ?_
  refine spoken_attempt ⟨log, ?_, .inr ⟨last, htalk⟩, ?_⟩
  · change Says link _ ((discard (Director.update link u.manifest u.options)).run.run _).2 _
    rw [hrun]
    exact hsays
  · intro hok
    obtain ⟨a, ha⟩ := exists_ok_of_reply hok
    have hupdate : ((discard (Director.update link u.manifest u.options)).run.run
        s.world.session).1 = .ok a := ha
    rw [hrun] at hupdate
    obtain ⟨t, ht, -⟩ := map_eq_ok_iff.1 hupdate
    exact hdone t ht

/-- What is said in the second stage is the beginning of the conversation of a run, and the stage
succeeds only if the diff has been fetched and the releases are there. -/
theorem spoken_approval (m : Manifest) (options : UpdateOptions) :
    Spoken link (approval (Desk.collaborators link deployment) m) s fun ok log =>
      RunTalk deployment m options log ∧ (ok = true → ∃ x releases, log = x :: releases ∧
        x.request = .diff deployment m.bytes ∧ x.diff?.isSome = true ∧
        Synced m.releases releases) := by
  refine (spoken_presentDiff m.bytes).bind ?_ ?_
  · rintro log (⟨rfl, -⟩ | ⟨x, rfl, hx, -⟩)
    · exact ⟨.silent, fun hok => nomatch hok⟩
    · exact ⟨.diff hx, fun hok => nomatch hok⟩
  rintro _ t log - (⟨-, hfail⟩ | ⟨x, rfl, hx, hdiff⟩)
  · cases hfail
  -- what follows the diff is a conversation about the releases
  have hreleases : Spoken link (do
      advance
      confirmation (Desk.collaborators link deployment) m) t fun ok log =>
        Syncing m.releases log ∧ (ok = true → Synced m.releases log) := by
    have hsilent : Syncing m.releases [] ∧ (false = true → Synced m.releases []) :=
      ⟨.stopped _, fun hok => nomatch hok⟩
    refine spoken_bind_of_session rfl hsilent fun _ u _ => ?_
    refine spoken_bind_of_session (session_confirm _) hsilent fun _ u _ => ?_
    refine spoken_bind_of_session rfl hsilent fun _ u _ => ?_
    exact (spoken_sync m.releases).bind_quiet fun _ u => ⟨rfl, rfl⟩
  refine hreleases.mono ?_
  rintro ok log ⟨hsyncing, hsynced⟩
  exact ⟨.syncing hx (hdiff rfl) hsyncing,
    fun hok => ⟨x, log, rfl, hx, hdiff rfl, hsynced hok⟩⟩

/-- What is said in a run, and what it takes for the run to succeed. -/
theorem spoken_steps (link : Link σ) (deployment : String) (request : DeployRequest) :
    Spoken link (steps (Desk.collaborators link deployment) request) s fun ok log =>
      (log = [] ∨ ∃ m, document deployment request = .ok m ∧
        RunTalk deployment m request.options log) ∧
      (ok = true → ∃ m, document deployment request = .ok m ∧
        RunDone deployment m request.options log) := by
  rw [steps_eq]
  refine spoken_bind_of_session session_opening ⟨.inl rfl, fun hok => nomatch hok⟩
    fun m t ht => ?_
  have hm : document deployment request = .ok m := (exec_opening_eq_ok_iff.1 ht).2.1
  refine (spoken_approval m request.options).bind ?_ ?_
  · rintro log ⟨htalk, -⟩
    exact ⟨.inr ⟨m, hm, htalk⟩, fun hok => nomatch hok⟩
  rintro summary t log - ⟨-, happroved⟩
  obtain ⟨x, releases, rfl, hx, hdiff, hsynced⟩ := happroved rfl
  refine Spoken.bind_quiet ((spoken_commit _).mono ?_) fun _ t => ⟨rfl, rfl⟩
  rintro ok log ⟨rfl | ⟨last, htalk⟩, hdone⟩
  · refine ⟨.inr ⟨m, hm, ?_⟩, fun hok => ⟨m, hm, .updated hx hdiff hsynced (hdone hok)⟩⟩
    rw [List.append_nil]
    exact .syncing hx hdiff hsynced.syncing
  · exact ⟨.inr ⟨m, hm, .updating hx hdiff hsynced htalk⟩,
      fun hok => ⟨m, hm, .updated hx hdiff hsynced (hdone hok)⟩⟩

/-! ## Runs -/

/-- The requests of a run against a director, in order, each with what has become of it. The run
begins with the given terminal and with the way to the director in the state `w`. -/
def exchanges (link : Link σ) (deployment : String) (request : DeployRequest)
    (terminal : Terminal) (w : σ) (cancelled : Bool) : List Exchange :=
  link.heard w (final (Desk.collaborators link deployment) request ⟨terminal, ⟨w, []⟩⟩
    cancelled).world.session.requests

/-- A run leaves its world as its steps do. -/
theorem world_final {cs : Collaborators σ} {request : DeployRequest} {w : σ} {cancelled : Bool} :
    (final cs request w cancelled).world =
      ((steps cs request).exec { world := w, cancelled }).2.world := by
  rw [final, execute, ← RunM.exec]
  rcases (steps cs request).exec { world := w, cancelled } with ⟨e | summary, t⟩ <;> rfl

/-- The conversation of a run is what its steps say. -/
theorem spoken_exchanges (link : Link σ) (deployment : String) (request : DeployRequest)
    (terminal : Terminal) (w : σ) (cancelled : Bool) :
    (exchanges link deployment request terminal w cancelled = [] ∨
        ∃ m, document deployment request = .ok m ∧
          RunTalk deployment m request.options
            (exchanges link deployment request terminal w cancelled)) ∧
      ((∃ report, result (Desk.collaborators link deployment) request ⟨terminal, ⟨w, []⟩⟩
          cancelled = .ok report) →
        ∃ m, document deployment request = .ok m ∧
          RunDone deployment m request.options
            (exchanges link deployment request terminal w cancelled)) := by
  obtain ⟨log, hsays, htalk, hdone⟩ :=
    spoken_steps (s := { world := ⟨terminal, ⟨w, []⟩⟩, cancelled }) link deployment request
  have hlog : exchanges link deployment request terminal w cancelled = log := by
    rw [exchanges, world_final, hsays.requests, List.nil_append]
    exact hsays.heard
  rw [hlog]
  refine ⟨htalk, fun hresult => hdone ?_⟩
  obtain ⟨summary, t, ht⟩ := result_eq_ok_iff.1 hresult
  rw [ht]
  rfl

/-- A run against a director asks for what its manifest says, in order, whatever the director
answers. It asks for the diff of the manifest; then, for each release with an address, for the list
of releases and, exactly if the release is not in the list, for its upload; and then for the update.
After an upload or the update it asks for the task as long as that is running. Nothing follows a
request that has not come out well, the update is asked for only when every task of an upload has
been found done, and the run succeeds only if the task of the update has been found done. -/
theorem director_requests_follow_plan (link : Link σ) (deployment : String)
    (request : DeployRequest) (terminal : Terminal) (w : σ) (cancelled : Bool) :
    (exchanges link deployment request terminal w cancelled = [] ∨
        ∃ m, document deployment request = .ok m ∧
          RunTalk deployment m request.options
            (exchanges link deployment request terminal w cancelled)) ∧
      (∀ before x after,
        exchanges link deployment request terminal w cancelled = before ++ x :: after →
          (x.isGood = false → after = []) ∧ (x.request.isUpdate = true → UploadsDone before)) ∧
      ((∃ report, result (Desk.collaborators link deployment) request ⟨terminal, ⟨w, []⟩⟩
          cancelled = .ok report) →
        ∃ m, document deployment request = .ok m ∧
          RunDone deployment m request.options
            (exchanges link deployment request terminal w cancelled)) := by
  obtain ⟨htalk, hdone⟩ := spoken_exchanges link deployment request terminal w cancelled
  refine ⟨htalk, fun before x after hlog => ?_, hdone⟩
  rcases htalk with hnone | ⟨m, -, htalk⟩
  · rw [hnone] at hlog
    simp at hlog
  · exact ⟨htalk.orderly.eq_nil hlog, htalk.uploadsDone hlog⟩

/-! ## A sample run -/

/-- A way to a director whose answers are given in advance. After the last one the user interrupts
the program. -/
def scriptedLink : Link (List Http.Outcome) where
  exchange _ w := (w.head?.getD .interrupted, w.tail)
  left w := w.length
  left_lt r w a h _ := by
    cases w with
    | nil => cases h
    | cons o w => exact Nat.lt_succ_self _

/-- Answers to the sample request: the release is not there, and its upload takes a while. -/
def sampleOutcomes : List Http.Outcome :=
  ["\x7b\"diff\":[]\x7d", "[]", "\x7b\"id\":1,\"state\":\"queued\"\x7d",
    "\x7b\"id\":1,\"state\":\"done\"\x7d", "\x7b\"id\":2,\"state\":\"done\"\x7d"].map
      fun body => .answered ⟨200, body⟩

/-- The terminal of a user who agrees to everything. -/
def sampleTerminal : Terminal := { nonInteractive := true }

/-- The conversation of the sample request, from the diff to the update. -/
theorem exchanges_sample :
    exchanges scriptedLink "web" sampleRequest sampleTerminal sampleOutcomes false =
      List.zipWith Exchange.mk
        [.diff "web" sampleRequest.manifest, .releases, .uploadRelease "local" none, .task 1,
          .update sampleRequest.manifest {}] sampleOutcomes := by
  decide +kernel

/-- The sample request succeeds with its update done, which was begun only after its one upload was
done. -/
theorem director_requests_follow_plan_sample :
    (∃ m, RunDone "web" m {}
      (exchanges scriptedLink "web" sampleRequest sampleTerminal sampleOutcomes false)) ∧
    UploadsDone
      ((exchanges scriptedLink "web" sampleRequest sampleTerminal sampleOutcomes false).take 4) := by
  obtain ⟨-, hparts, hdone⟩ := director_requests_follow_plan scriptedLink "web" sampleRequest
    sampleTerminal sampleOutcomes false
  have hresult : ∃ report, result (Desk.collaborators scriptedLink "web") sampleRequest
      ⟨sampleTerminal, ⟨sampleOutcomes, []⟩⟩ false = .ok report :=
    ⟨⟨"web", .done, Phase.sequence.tail, [("nginx", .uploaded)], []⟩,
      toOption_eq_some_iff.1 (by decide +kernel)⟩
  obtain ⟨m, -, hm⟩ := hdone hresult
  have hlog : exchanges scriptedLink "web" sampleRequest sampleTerminal sampleOutcomes false =
      (exchanges scriptedLink "web" sampleRequest sampleTerminal sampleOutcomes false).take 4 ++
        [⟨.update sampleRequest.manifest {}, sampleOutcomes.getLastD .interrupted⟩] := by
    rw [exchanges_sample]
    rfl
  exact ⟨⟨m, hm⟩, (hparts _ _ [] hlog).2 rfl⟩

end Deploy

end Rollout
