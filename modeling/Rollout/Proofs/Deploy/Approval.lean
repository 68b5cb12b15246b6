import Rollout.Proofs.Deploy.Plan

/-!
# Approval

The second stage of a run completes exactly if the diff is fetched, the user confirms, and every
release that has an address is uploaded, all of it without the run being cancelled. `Approved` and
`Uploaded` say this of the collaborators alone, in the worlds that they find themselves in, and
`completes_approval_iff` relates them to the run.
-/

namespace Rollout.Deploy

variable {σ α β : Type} {cs : Collaborators σ} {s t : State σ} {w : σ}

/-- Every release that has an address has a version that can be read and is uploaded while the run
is not cancelled. The first of these uploads is made in the world `w`, and each further one in the
world that the one before has left. -/
inductive Uploaded (cs : Collaborators σ) : σ → List Release → Prop
  | nil (w : σ) : Uploaded cs w []
  | skip {w : σ} {r : Release} {rs : List Release} (noAddress : r.sourceUrl? = none)
      (rest : Uploaded cs w rs) : Uploaded cs w (r :: rs)
  | upload {w w' : σ} {r : Release} {rs : List Release} {url : String} {version : Version}
      {outcome : UploadOutcome} (address : r.sourceUrl? = some url)
      (readable : Version.parse r.version = .ok version)
      (sent : cs.upload ⟨r.name, url, r.sha1, version⟩ w = (.returned (.ok outcome) false, w'))
      (rest : Uploaded cs w' rs) : Uploaded cs w (r :: rs)

/-- The diff of a manifest is fetched and shown, the user confirms, and the releases are uploaded,
and the run is not cancelled meanwhile. The diff is asked for in the world `w`, and each further
call is made in the world that the calls before it have left. -/
structure Approved (cs : Collaborators σ) (w : σ) (m : Manifest) : Prop where
  diffed : ∃ lines, (cs.diff m.bytes w).1 = .returned (.ok lines) false
  shown : cs.anyStruck w (reviewCalls cs w m) = false
  confirmed : (cs.confirm (cs.after w (reviewCalls cs w m))).1 = .returned (.ok ()) false
  uploaded : Uploaded cs (cs.after w (reviewCalls cs w m ++ [.confirm])) m.releases

/-! ## Parts that complete -/

/-- A part of a run completes if it succeeds and the run has not been cancelled by then. -/
def Completes (m : RunM σ α) (s : State σ) : Prop :=
  ∃ a t, m.exec s = (.ok a, t) ∧ t.cancelled = false

/-- To return a value completes unless the run has been cancelled. -/
theorem completes_pure_iff {a : α} : Completes (pure a) s ↔ s.cancelled = false := by
  constructor
  · rintro ⟨_, t, h, ht⟩
    cases h
    exact ht
  · intro h
    exact ⟨a, s, rfl, h⟩

/-- Two parts one after the other complete if the first succeeds and the second completes. -/
theorem completes_bind_iff {m : RunM σ α} {f : α → RunM σ β} :
    Completes (m >>= f) s ↔ ∃ a t, m.exec s = (.ok a, t) ∧ Completes (f a) t := by
  constructor
  · rintro ⟨b, u, h, hu⟩
    obtain ⟨a, t, hm, hf⟩ := exec_bind_eq_ok_iff.1 h
    exact ⟨a, t, hm, b, u, hf, hu⟩
  · rintro ⟨a, t, hm, b, u, hf, hu⟩
    exact ⟨b, u, exec_bind_eq_ok_iff.2 ⟨a, t, hm, hf⟩, hu⟩

/-- After a part that cannot fail, it is up to the second part. -/
theorem completes_bind_of_exec {m : RunM σ α} {f : α → RunM σ β} {a : α}
    (h : m.exec s = (.ok a, t)) : Completes (m >>= f) s ↔ Completes (f a) t := by
  rw [completes_bind_iff, h]
  constructor
  · rintro ⟨a', t', h', hf⟩
    cases h'
    exact hf
  · intro hf
    exact ⟨a, t, rfl, hf⟩

/-- Before a part that cannot fail, it is up to the first part. -/
theorem completes_bind_iff_left {m : RunM σ α} {f : α → RunM σ β}
    (hf : ∀ a t, Completes (f a) t ↔ t.cancelled = false) :
    Completes (m >>= f) s ↔ Completes m s := by
  rw [completes_bind_iff]
  constructor
  · rintro ⟨a, t, hm, h⟩
    exact ⟨a, t, hm, (hf a t).1 h⟩
  · rintro ⟨a, t, hm, h⟩
    exact ⟨a, t, hm, (hf a t).2 h⟩

/-- What is made of its result does not matter to whether a part completes. -/
theorem completes_map_iff {f : α → β} {m : RunM σ α} : Completes (f <$> m) s ↔ Completes m s := by
  rw [map_eq_pure_bind]
  exact completes_bind_iff_left fun _ _ => completes_pure_iff

/-- Entering a phase always completes. -/
theorem completes_advance_bind_iff {m : RunM σ α} :
    Completes (advance >>= fun _ => m) s ↔
      Completes m { s with phase := s.phase.target, steps := s.steps ++ [s.phase.target] } :=
  completes_bind_of_exec (exec_advance s)

/-- A call is made while the run has not been cancelled, and it must return a result. If what comes
after it completes, the run is not cancelled during the call. -/
theorem completes_cancellable_bind {phase : Phase} {c : Call} {failed : Failure → DeployError}
    {call : σ → Reply (Except Failure α) × σ} {f : α → RunM σ β}
    (hf : ∀ a t, Completes (f a) t → t.cancelled = false) :
    Completes (cancellable phase (attempt c failed call) >>= f) s ↔
      s.cancelled = false ∧ ∃ a w, call s.world = (.returned (.ok a) false, w) ∧
        Completes (f a) (s.called c w false) := by
  rw [completes_bind_iff]
  constructor
  · rintro ⟨a, t, hcall, h⟩
    obtain ⟨hc, b, w, hreply, rfl⟩ := exec_cancellable_eq_ok_iff.1 hcall
    have hb : (s.cancelled || b) = false := hf _ _ h
    rw [hc, Bool.false_or] at hb
    obtain rfl := hb
    exact ⟨hc, a, w, hreply, h⟩
  · rintro ⟨hc, a, w, hreply, h⟩
    exact ⟨a, _, exec_cancellable_eq_ok_iff.2 ⟨hc, false, w, hreply, rfl⟩, h⟩

/-- The same for the step towards the next phase. -/
theorem completes_proceed_bind {c : Call} {failed : Failure → DeployError}
    {call : σ → Reply (Except Failure α) × σ} {f : α → RunM σ β}
    (hf : ∀ a t, Completes (f a) t → t.cancelled = false) :
    Completes (proceed (attempt c failed call) >>= f) s ↔
      s.cancelled = false ∧ ∃ a w, call s.world = (.returned (.ok a) false, w) ∧
        Completes (f a) (s.called c w false) := by
  rw [proceed, bind_assoc, completes_bind_of_exec (exec_target s)]
  exact completes_cancellable_bind hf

/-! ## The releases -/

/-- A release has no upload if it has no address. -/
theorem uploadRequest?_eq_none_iff {r : Release} :
    r.uploadRequest? = .ok none ↔ r.sourceUrl? = none := by
  rw [Release.uploadRequest?]
  cases r.sourceUrl? with
  | none => simp
  | some url => cases Version.parse r.version <;> simp

/-- The upload of a release is made of its fields and of its version as it is read. -/
theorem uploadRequest?_eq_some_iff {r : Release} {request : UploadRequest} :
    r.uploadRequest? = .ok (some request) ↔
      ∃ url version, r.sourceUrl? = some url ∧ Version.parse r.version = .ok version ∧
        request = ⟨r.name, url, r.sha1, version⟩ := by
  rw [Release.uploadRequest?]
  cases r.sourceUrl? with
  | none => simp
  | some url => cases Version.parse r.version <;> simp [eq_comm]

/-- The first release is skipped or uploaded, and then the others are uploaded. -/
theorem uploaded_cons_iff {r : Release} {rs : List Release} :
    Uploaded cs w (r :: rs) ↔
      r.uploadRequest? = .ok none ∧ Uploaded cs w rs ∨
      ∃ request outcome w', r.uploadRequest? = .ok (some request) ∧
        cs.upload request w = (.returned (.ok outcome) false, w') ∧ Uploaded cs w' rs := by
  constructor
  · intro h
    cases h with
    | skip noAddress rest => exact .inl ⟨uploadRequest?_eq_none_iff.2 noAddress, rest⟩
    | upload address readable sent rest =>
      exact .inr ⟨_, _, _, uploadRequest?_eq_some_iff.2 ⟨_, _, address, readable, rfl⟩, sent, rest⟩
  · rintro (⟨hr, rest⟩ | ⟨request, outcome, w', hr, sent, rest⟩)
    · exact .skip (uploadRequest?_eq_none_iff.1 hr) rest
    · obtain ⟨url, version, address, readable, rfl⟩ := uploadRequest?_eq_some_iff.1 hr
      exact .upload address readable sent rest

/-- The synchronisation completes if all uploads succeed. -/
theorem completes_sync_iff (rs : List Release) :
    Completes (sync cs rs) s ↔ s.cancelled = false ∧ Uploaded cs s.world rs := by
  induction rs generalizing s with
  | nil =>
    rw [sync, completes_pure_iff]
    exact ⟨fun h => ⟨h, .nil _⟩, And.left⟩
  | cons r rs ih =>
    rw [uploaded_cons_iff]
    cases hr : r.uploadRequest? with
    | error e => simp [Completes, sync, hr]
    | ok request? =>
      cases request? with
      | none => simp [sync, hr, completes_map_iff, ih]
      | some request =>
        have htail : ∀ (f : UploadOutcome → SyncSummary → SyncSummary) (outcome : UploadOutcome)
            (t : State σ), Completes (f outcome <$> sync cs rs) t → t.cancelled = false := by
          intro f outcome t h
          exact (ih.1 (completes_map_iff.1 h)).1
        simp +contextual [sync, hr, completes_cancellable_bind (htail _), completes_map_iff, ih,
          State.called]

/-- The user has to confirm, and then all uploads have to succeed. -/
theorem completes_confirmation_iff {m : Manifest} :
    Completes (confirmation cs m) s ↔
      s.cancelled = false ∧ ∃ w, cs.confirm s.world = (.returned (.ok ()) false, w) ∧
        Uploaded cs w m.releases := by
  have htail : ∀ (u : Unit) (t : State σ), Completes (do
      advance
      let summary ← sync cs m.releases
      advance
      return summary) t ↔ t.cancelled = false ∧ Uploaded cs t.world m.releases := by
    intro u t
    have hend : ∀ (summary : SyncSummary) (v : State σ), Completes (do
        advance
        return summary) v ↔ v.cancelled = false := by
      intro summary v
      rw [completes_advance_bind_iff, completes_pure_iff]
    rw [completes_advance_bind_iff, completes_bind_iff_left hend, completes_sync_iff]
  rw [confirmation, completes_proceed_bind fun u t h => ((htail u t).1 h).1]
  constructor
  · rintro ⟨hc, ⟨⟩, w, hconfirm, h⟩
    exact ⟨hc, w, hconfirm, ((htail () _).1 h).2⟩
  · rintro ⟨hc, w, hconfirm, h⟩
    exact ⟨hc, (), w, hconfirm, (htail () _).2 ⟨by simp [State.called, hc], h⟩⟩

/-- A diff has to be returned and shown. If what comes after it completes, the run is not cancelled
meanwhile. -/
theorem completes_presentDiff_bind {f : Nat → RunM σ β} {m : Manifest}
    (hf : ∀ n t, Completes (f n) t → t.cancelled = false) :
    Completes (proceed (presentDiff cs m.bytes) >>= f) s ↔
      s.cancelled = false ∧ cs.anyStruck s.world (reviewCalls cs s.world m) = false ∧
        ∃ lines, (cs.diff m.bytes s.world).1 = .returned (.ok lines) false ∧
          Completes (f lines.length) (s.made cs (reviewCalls cs s.world m)) := by
  rw [completes_bind_iff]
  simp only [exec_proceed]
  constructor
  · rintro ⟨n, t, hdiff, h⟩
    cases hc : s.cancelled with
    | true => simp [hc] at hdiff
    | false =>
      rw [if_neg (by simp [hc]), exec_presentDiff] at hdiff
      obtain ⟨hreply, rfl⟩ := Prod.mk.inj hdiff
      have hshown : (s.cancelled || cs.anyStruck s.world (reviewCalls cs s.world m)) = false :=
        hf _ _ h
      rw [hc, Bool.false_or] at hshown
      have hstruck := hshown
      rw [reviewCalls, cs.anyStruck_cons, Bool.or_eq_false_iff, Collaborators.struck] at hstruck
      refine ⟨rfl, hshown, ?_⟩
      rcases hr : (cs.diff m.bytes s.world).1 with (e | lines) | _
      · simp [hr] at hreply
      · rw [hr] at hreply hstruck
        obtain rfl := hstruck.1
        obtain rfl := Except.ok.inj hreply
        exact ⟨lines, rfl, h⟩
      · simp [hr] at hreply
  · rintro ⟨hc, -, lines, hdiff, h⟩
    refine ⟨lines.length, _, ?_, h⟩
    rw [if_neg (by simp [hc]), exec_presentDiff, hdiff]
    rfl

/-- The second stage completes if the manifest is approved. -/
theorem completes_approval_iff {m : Manifest} :
    Completes (approval cs m) s ↔ s.cancelled = false ∧ Approved cs s.world m := by
  have htail : ∀ t : State σ, Completes (do
      advance
      confirmation cs m) t ↔ t.cancelled = false ∧ ∃ w,
        cs.confirm t.world = (.returned (.ok ()) false, w) ∧ Uploaded cs w m.releases := by
    intro t
    rw [completes_advance_bind_iff, completes_confirmation_iff]
  rw [approval, completes_presentDiff_bind fun n t h => ((htail t).1 h).1]
  simp only [htail]
  constructor
  · rintro ⟨hc, hshown, ⟨lines, hdiff, -, w, hconfirm, huploads⟩⟩
    have hconfirmed :
        cs.confirm (cs.after s.world (reviewCalls cs s.world m)) =
          (.returned (.ok ()) false, w) :=
      hconfirm
    refine ⟨hc, ⟨lines, hdiff⟩, hshown, by rw [hconfirmed], ?_⟩
    rw [cs.after_append, cs.after_cons, Collaborators.act, hconfirmed]
    exact huploads
  · rintro ⟨hc, ⟨lines, hdiff⟩, hshown, hconfirm, huploads⟩
    rw [cs.after_append, cs.after_cons] at huploads
    exact ⟨hc, hshown, lines, hdiff, Bool.or_eq_false_iff.2 ⟨hc, hshown⟩, _,
      Prod.ext hconfirm rfl, huploads⟩

end Rollout.Deploy
