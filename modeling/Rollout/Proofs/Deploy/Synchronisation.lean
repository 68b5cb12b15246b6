import Mathlib.Data.List.Forall2
import Rollout.Proofs.Deploy.Report
import Rollout.Proofs.Version.Order

/-!
# The synchronisation of releases

What becomes of every release when a list of them is synchronised, wherever it ends. The releases
are gone through in order (`Passed`): one with an address is handed to the uploader once, one
without is skipped. Either all of them are passed, or one with an address stops the synchronisation
(`StopsAt`), by its version, by its upload or because the run is cancelled; then those before it
have been passed and those after it do not matter. The main statement is `sync_passes_or_stops`.
-/

namespace Rollout.Deploy

variable {σ : Type} {cs : Collaborators σ} {s t u : State σ} {r : Release} {rs : List Release}
  {q : UploadRequest} {e : DeployError}

/-- The upload that a release with an address asks for: its name, its address and its checksum, and
its version as it is read. -/
def Asks (r : Release) (q : UploadRequest) : Prop :=
  ∃ url version, r.sourceUrl? = some url ∧ Version.parse r.version = .ok version ∧
    q = ⟨r.name, url, r.sha1, version⟩

/-- The synchronisation has passed some releases on its way from one state to another. Those with
an address have been handed to the uploader, one by one and in order, and each of these calls has
returned an outcome; no other call has been made. -/
structure Passed (cs : Collaborators σ) (s : State σ) (rs : List Release)
    (done : List (UploadRequest × UploadOutcome)) (t : State σ) : Prop where
  asked : List.Forall₂ (fun r u => Asks r u.1) (rs.filter (·.sourceUrl?.isSome)) done
  leads : Leads cs s t (done.map (.upload ·.1))
  replies : (cs.uploadReplies s.world (done.map (.upload ·.1))).map
    (fun u => (u.1, u.2.outcome?)) = done.map fun u => (u.1, some u.2)

/-- What is told of the releases that have been passed. -/
def summaryOf (rs : List Release) (done : List (UploadRequest × UploadOutcome)) : SyncSummary where
  uploads := done.map fun u => (u.1.name, u.2)
  skipped := (rs.filter (·.sourceUrl?.isNone)).map (·.name)

/-- How a release stops a synchronisation that has come as far as the state `t`: the error, and the
state that it leaves. -/
inductive StopsAt (cs : Collaborators σ) (r : Release) (t : State σ) :
    DeployError → State σ → Prop
  /-- Its version cannot be read, and it is not handed to the uploader. -/
  | version {url : String} (address : r.sourceUrl? = some url)
    (unreadable : Version.parse r.version = .error ⟨r.version⟩) :
    StopsAt cs r t (.versionFormat ⟨r.version⟩) t
  /-- The run has been cancelled, and it is not handed to the uploader. -/
  | cancelled {q : UploadRequest} (asks : Asks r q) (before : t.cancelled = true) :
    StopsAt cs r t (.cancelled .releasesSynced) t
  /-- The uploader fails. -/
  | refused {q : UploadRequest} {f : Failure} {b : Bool} {w : σ} (asks : Asks r q)
    (running : t.cancelled = false) (reply : cs.upload q t.world = (.returned (.error f) b, w)) :
    StopsAt cs r t (.upload r.name f) (t.called (.upload q) w b)
  /-- The run is cancelled before the uploader returns. -/
  | abandoned {q : UploadRequest} {w : σ} (asks : Asks r q) (running : t.cancelled = false)
    (reply : cs.upload q t.world = (.abandoned, w)) :
    StopsAt cs r t (.cancelled .releasesSynced) (t.called (.upload q) w true)

/-! ## One release -/

/-- A release asks for an upload exactly if the request for it is made. -/
theorem asks_iff : Asks r q ↔ r.uploadRequest? = .ok (some q) :=
  uploadRequest?_eq_some_iff.symm

/-- A release asks for no upload that can be made if it has an address and a malformed version. -/
theorem uploadRequest?_eq_error_iff {e : VersionFormatError} :
    r.uploadRequest? = .error e ↔
      ∃ url, r.sourceUrl? = some url ∧ Version.parse r.version = .error e := by
  unfold Release.uploadRequest?
  cases r.sourceUrl? with
  | none => simp
  | some url => cases Version.parse r.version <;> simp

/-- The upload that a release asks for has its name. -/
theorem Asks.name_eq (h : Asks r q) : q.name = r.name := by
  obtain ⟨url, version, -, -, rfl⟩ := h
  rfl

/-- A release that asks for an upload has an address. -/
theorem Asks.isSome (h : Asks r q) : r.sourceUrl?.isSome = true := by
  obtain ⟨url, version, haddress, -, -⟩ := h
  rw [haddress]
  rfl

/-- Nothing comes after a release that stops the synchronisation. -/
theorem StopsAt.exec (h : StopsAt cs r t e u) (rs : List Release) :
    (sync cs (r :: rs)).exec t = (.error e, u) := by
  cases h with
  | version address unreadable =>
    have hr : r.uploadRequest? = .error ⟨r.version⟩ :=
      uploadRequest?_eq_error_iff.2 ⟨_, address, unreadable⟩
    simp [sync, hr]
  | cancelled asks before =>
    simp [sync, asks_iff.1 asks, exec_cancellable, before]
  | refused asks running reply =>
    simp [sync, asks_iff.1 asks, exec_cancellable, exec_attempt, running, reply, asks.name_eq]
  | abandoned asks running reply =>
    simp [sync, asks_iff.1 asks, exec_cancellable, exec_attempt, running, reply]

/-- A release without an address is added to those that are skipped. -/
theorem exec_sync_skip (h : r.sourceUrl? = none) (rs : List Release) (s : State σ) :
    (sync cs (r :: rs)).exec s = ((((sync cs rs).exec s).1.map fun summary =>
      { summary with skipped := r.name :: summary.skipped }), ((sync cs rs).exec s).2) := by
  have hr : r.uploadRequest? = .ok none := uploadRequest?_eq_none_iff.2 h
  simp [sync, hr]

/-- A release whose upload succeeds is added to the summary of the others. -/
theorem exec_sync_upload {o : UploadOutcome} {b : Bool} {w : σ} (asks : Asks r q)
    (running : s.cancelled = false) (reply : cs.upload q s.world = (.returned (.ok o) b, w))
    (rs : List Release) :
    (sync cs (r :: rs)).exec s =
      ((((sync cs rs).exec (s.called (.upload q) w b)).1.map fun summary =>
        { summary with uploads := (q.name, o) :: summary.uploads }),
        ((sync cs rs).exec (s.called (.upload q) w b)).2) := by
  simp [sync, asks_iff.1 asks, exec_cancellable, exec_attempt, running, reply]

/-! ## Releases that are passed -/

/-- No releases are passed without a call. -/
theorem passed_nil (s : State σ) : Passed cs s [] [] s :=
  ⟨.nil, .refl s, rfl⟩

/-- A release without an address is passed without a call. -/
theorem Passed.skip {done : List (UploadRequest × UploadOutcome)} (h : Passed cs s rs done t)
    (hr : r.sourceUrl? = none) : Passed cs s (r :: rs) done t := by
  refine ⟨?_, h.leads, h.replies⟩
  rw [List.filter_cons_of_neg (by simp [hr])]
  exact h.asked

/-- A release with an address is passed by its upload. -/
theorem Passed.upload {done : List (UploadRequest × UploadOutcome)} {o : UploadOutcome} {b : Bool}
    {w : σ} (h : Passed cs (s.called (.upload q) w b) rs done t) (asks : Asks r q)
    (reply : cs.upload q s.world = (.returned (.ok o) b, w)) :
    Passed cs s (r :: rs) ((q, o) :: done) t := by
  have hmade : s.made cs [.upload q] = s.called (.upload q) w b := by
    rw [s.made_singleton, Collaborators.act, Collaborators.struck, reply]
    rfl
  have hcalled : Leads cs s (s.called (.upload q) w b) [.upload q] := hmade ▸ leads_made s _
  refine ⟨?_, hcalled.trans h.leads, ?_⟩
  · rw [List.filter_cons_of_pos (by exact asks.isSome)]
    exact .cons asks h.asked
  · have hreplies := h.replies
    rw [List.map_cons, List.map_cons, cs.uploadReplies_upload, reply, List.map_cons, ← hreplies]
    rfl

/-- Each release that has been passed is told once, among the uploads or among those skipped. -/
theorem Passed.perm {done : List (UploadRequest × UploadOutcome)} (h : Passed cs s rs done t) :
    ((summaryOf rs done).uploads.map (·.1) ++ (summaryOf rs done).skipped).Perm
      (rs.map (·.name)) := by
  have hnames : List.Forall₂ (· = ·) ((rs.filter (·.sourceUrl?.isSome)).map (·.name))
      (done.map (·.1.name)) := by
    rw [List.forall₂_map_left_iff, List.forall₂_map_right_iff]
    exact h.asked.imp fun r u asks => asks.name_eq.symm
  rw [List.forall₂_eq_eq_eq] at hnames
  have hparts : (rs.filter (·.sourceUrl?.isSome) ++ rs.filter (!·.sourceUrl?.isSome)).Perm rs :=
    List.filter_append_perm _ rs
  unfold summaryOf
  rw [List.map_map]
  change (done.map (·.1.name) ++ _).Perm _
  rw [← hnames, ← List.map_append]
  simpa using hparts.map (·.name)

/-! ## The whole list -/

/-- A release without an address adds its name to those skipped. -/
theorem summaryOf_skip (hr : r.sourceUrl? = none) (rs : List Release)
    (done : List (UploadRequest × UploadOutcome)) :
    summaryOf (r :: rs) done =
      { summaryOf rs done with skipped := r.name :: (summaryOf rs done).skipped } := by
  unfold summaryOf
  rw [List.filter_cons_of_pos (by simp [hr]), List.map_cons]

/-- A release with an address adds its upload. -/
theorem summaryOf_upload (asks : Asks r q) (o : UploadOutcome) (rs : List Release)
    (done : List (UploadRequest × UploadOutcome)) :
    summaryOf (r :: rs) ((q, o) :: done) =
      { summaryOf rs done with uploads := (q.name, o) :: (summaryOf rs done).uploads } := by
  obtain ⟨url, version, haddress, -, -⟩ := asks
  unfold summaryOf
  rw [List.filter_cons_of_neg (by simp [haddress]), List.map_cons]

/-- A release stops the synchronisation, or it is passed without an upload or by its upload. -/
theorem stopsAt_or_passes (cs : Collaborators σ) (r : Release) (s : State σ) :
    (∃ e u, StopsAt cs r s e u) ∨ r.sourceUrl? = none ∨
      ∃ q o b w, Asks r q ∧ s.cancelled = false ∧
        cs.upload q s.world = (.returned (.ok o) b, w) := by
  cases haddress : r.sourceUrl? with
  | none => exact .inr (.inl rfl)
  | some url =>
    cases hversion : Version.parse r.version with
    | error e =>
      obtain rfl := Version.error_of_parse hversion
      exact .inl ⟨_, _, .version haddress hversion⟩
    | ok version =>
      have asks : Asks r ⟨r.name, url, r.sha1, version⟩ := ⟨url, version, haddress, hversion, rfl⟩
      by_cases hbefore : s.cancelled = true
      · exact .inl ⟨_, _, .cancelled asks hbefore⟩
      · have running : s.cancelled = false := Bool.eq_false_iff.2 hbefore
        rcases hreply : cs.upload ⟨r.name, url, r.sha1, version⟩ s.world with ⟨(f | o) | _, w⟩
        · exact .inl ⟨_, _, .refused asks running hreply⟩
        · exact .inr (.inr ⟨_, _, _, _, asks, running, hreply⟩)
        · exact .inl ⟨_, _, .abandoned asks running hreply⟩

/-- The synchronisation of some releases, from any state of the run, comes out in one of two ways.
Either it succeeds, and then it has passed all of them: it has made one call for each release with
an address, in order, with the name, the address, the checksum and the version of that release, and
it tells these names with the outcomes that the calls have returned, and the names of all other
releases, each release once. Or it fails at a release with an address. Then it has passed the
releases before that one, and what happens at that one says which call is the last and what the
error is; for the releases after it others may stand, and all is the same. -/
theorem sync_passes_or_stops (cs : Collaborators σ) (rs : List Release) (s : State σ) :
    (∃ done t, (sync cs rs).exec s = (.ok (summaryOf rs done), t) ∧ Passed cs s rs done t ∧
      ((summaryOf rs done).uploads.map (·.1) ++ (summaryOf rs done).skipped).Perm
        (rs.map (·.name))) ∨
    ∃ before r after done t e u, rs = before ++ r :: after ∧ Passed cs s before done t ∧
      StopsAt cs r t e u ∧
      ∀ others, (sync cs (before ++ r :: others)).exec s = (.error e, u) := by
  induction rs generalizing s with
  | nil => exact .inl ⟨[], s, rfl, passed_nil s, .refl _⟩
  | cons r rs ih =>
    rcases stopsAt_or_passes cs r s with ⟨e, u, hstops⟩ | haddress |
      ⟨q, o, b, w, asks, running, reply⟩
    · exact .inr ⟨[], r, rs, [], s, e, u, rfl, passed_nil s, hstops, hstops.exec⟩
    · rcases ih s with ⟨done, t, hexec, hpassed, -⟩ |
        ⟨before, r', after, done, t, e, u, rfl, hpassed, hstops, hothers⟩
      · have hpassed' := hpassed.skip haddress
        refine .inl ⟨done, t, ?_, hpassed', hpassed'.perm⟩
        rw [exec_sync_skip haddress, hexec, summaryOf_skip haddress]
        rfl
      · refine .inr ⟨r :: before, r', after, done, t, e, u, rfl, hpassed.skip haddress, hstops, ?_⟩
        intro others
        rw [List.cons_append, exec_sync_skip haddress, hothers]
        rfl
    · rcases ih (s.called (.upload q) w b) with ⟨done, t, hexec, hpassed, -⟩ |
        ⟨before, r', after, done, t, e, u, rfl, hpassed, hstops, hothers⟩
      · have hpassed' := hpassed.upload asks reply
        refine .inl ⟨(q, o) :: done, t, ?_, hpassed', hpassed'.perm⟩
        rw [exec_sync_upload asks running reply, hexec, summaryOf_upload asks]
        rfl
      · refine .inr ⟨r :: before, r', after, (q, o) :: done, t, e, u, rfl,
          hpassed.upload asks reply, hstops, ?_⟩
        intro others
        rw [List.cons_append, exec_sync_upload asks running reply, hothers]
        rfl

end Rollout.Deploy
