import Rollout.Proofs.Deploy.Execution

/-!
# The course of a run

A part of a run has a plan: the calls that it makes if nothing goes wrong. `Course` says how it
keeps to that plan. It makes the planned calls in order and leaves out none before it fails, it
makes all of them if it succeeds, and once the run has been cancelled it makes no call at all. If a
part keeps to a plan and what may come after it keeps to another, both together keep to both
(`Keeps.bind`), so that each part is looked at once.
-/

namespace Rollout.Deploy

variable {σ α β : Type}

/-- How a part of a run gets from one state to another: by the calls `made`, and without taking
back a phase that has been reached. -/
structure Leads (cs : Collaborators σ) (s t : State σ) (made : List Call) : Prop where
  calls : t.calls = s.calls ++ made
  world : t.world = cs.after s.world made
  cancelled : t.cancelled = (s.cancelled || cs.anyStruck s.world made)
  steps : s.steps <+: t.steps

/-- The course that a part of a run takes from the state `s`. Of the calls of its plan it makes
those that are `made`. -/
structure Course (cs : Collaborators σ) (m : RunM σ α) (s : State σ) (plan made : List Call) :
    Prop where
  leads : Leads cs s (m.exec s).2 made
  within : made <+: plan
  complete : ∀ a, (m.exec s).1 = .ok a → made = plan
  halts : Halts cs s.world made
  quiet : s.cancelled = true → made = []

variable {cs : Collaborators σ} {s t u : State σ}

/-! ## Composition -/

/-- No call leads nowhere. -/
theorem Leads.refl (s : State σ) : Leads cs s s [] where
  calls := (List.append_nil _).symm
  world := rfl
  cancelled := (Bool.or_false _).symm
  steps := List.prefix_rfl

/-- Calls lead on from where others have led to. -/
theorem Leads.trans {made made' : List Call} (h : Leads cs s t made) (h' : Leads cs t u made') :
    Leads cs s u (made ++ made') where
  calls := by rw [h'.calls, h.calls, List.append_assoc]
  world := by rw [h'.world, h.world, cs.after_append]
  cancelled := by rw [h'.cancelled, h.cancelled, h.world, cs.anyStruck_append, Bool.or_assoc]
  steps := h.steps.trans h'.steps

/-- Calls that are made lead to the state after them. -/
theorem leads_made (s : State σ) (calls : List Call) : Leads cs s (s.made cs calls) calls where
  calls := rfl
  world := rfl
  cancelled := rfl
  steps := List.prefix_rfl

/-- A part that makes no call. -/
theorem Course.of_silent {m : RunM σ α} (hcalls : (m.exec s).2.calls = s.calls)
    (hworld : (m.exec s).2.world = s.world) (hcancelled : (m.exec s).2.cancelled = s.cancelled)
    (hsteps : s.steps <+: (m.exec s).2.steps) : Course cs m s [] [] where
  leads := {
    calls := hcalls.trans (List.append_nil _).symm
    world := hworld
    cancelled := hcancelled.trans (Bool.or_false _).symm
    steps := hsteps }
  within := List.prefix_rfl
  complete _ _ := rfl
  halts := halts_of_anyStruck rfl
  quiet _ := rfl

/-- A part that ends a run before its first call. -/
theorem Course.of_error {m : RunM σ α} {e : DeployError} (h : m.exec s = (.error e, s))
    (plan : List Call) : Course cs m s plan [] where
  leads := by rw [h]; exact Leads.refl s
  within := List.nil_prefix
  complete a ha := by rw [h] at ha; cases ha
  halts := halts_of_anyStruck rfl
  quiet _ := rfl

/-- The calls that are made lead to the state that the part leaves. -/
theorem Course.leads_of_exec {m : RunM σ α} {plan made : List Call} {r : Except DeployError α}
    (h : Course cs m s plan made) (hm : m.exec s = (r, t)) : Leads cs s t made := by
  have hleads := h.leads
  rwa [hm] at hleads

/-- A part that succeeds has made all calls of its plan. -/
theorem Course.made_eq {m : RunM σ α} {plan made : List Call} {a : α}
    (h : Course cs m s plan made) (hm : m.exec s = (.ok a, t)) : made = plan :=
  h.complete a (by rw [hm])

/-- A part of a run keeps to a plan if it takes some course of it. -/
def Keeps (cs : Collaborators σ) (m : RunM σ α) (s : State σ) (plan : List Call) : Prop :=
  ∃ made, Course cs m s plan made

/-- A part of a run makes no call that is not in its plan. -/
theorem Keeps.notMem_calls {m : RunM σ α} {plan : List Call} {c : Call} (h : Keeps cs m s plan)
    (hs : c ∉ s.calls) (hplan : c ∉ plan) : c ∉ (m.exec s).2.calls := by
  obtain ⟨made, h⟩ := h
  rw [h.leads.calls, List.mem_append]
  rintro (hc | hc)
  · exact hs hc
  · exact hplan (h.within.subset hc)

/-- A plan for a part and a plan for what comes after it make a plan for both. What comes after is
only asked to keep to its plan from the states in which the first part succeeds. -/
theorem Keeps.bind {m : RunM σ α} {f : α → RunM σ β} {plan plan' : List Call}
    (h : Keeps cs m s plan) (h' : ∀ a t, m.exec s = (.ok a, t) → Keeps cs (f a) t plan') :
    Keeps cs (m >>= f) s (plan ++ plan') := by
  obtain ⟨made, h⟩ := h
  rcases hm : m.exec s with ⟨e | a, t⟩
  · -- the first part fails, and its calls are all there are
    have hexec : (m >>= f).exec s = (.error e, t) := by rw [exec_bind, hm]
    refine ⟨made, ?_, h.within.trans (List.prefix_append _ _), ?_, h.halts, h.quiet⟩
    · rw [hexec]
      exact h.leads_of_exec hm
    · intro b hb
      rw [hexec] at hb
      cases hb
  · obtain ⟨made', h'⟩ := h' a t hm
    have hexec : (m >>= f).exec s = (f a).exec t := by rw [exec_bind, hm]
    have hleads : Leads cs s t made := h.leads_of_exec hm
    have hmade : made = plan := h.made_eq hm
    -- a run that the first part leaves cancelled makes no further call
    have hend : t.cancelled = true → made' = [] := h'.quiet
    rw [hleads.cancelled, Bool.or_eq_true] at hend
    refine ⟨made ++ made', ?_, ?_, ?_, ?_, ?_⟩
    · rw [hexec]
      exact hleads.trans h'.leads
    · rw [hmade]
      exact (List.prefix_append_right_inj plan).2 h'.within
    · intro b hb
      rw [hexec] at hb
      rw [hmade, h'.complete b hb]
    · have hhalts := h'.halts
      rw [hleads.world] at hhalts
      exact h.halts.append hhalts fun hstruck => hend (.inr hstruck)
    · intro hcancelled
      rw [h.quiet hcancelled, hend (.inl hcancelled)]
      rfl

/-- A part that plans no call may come before any other. -/
theorem Keeps.bind_of_nil {m : RunM σ α} {f : α → RunM σ β} {plan : List Call}
    (h : Keeps cs m s []) (h' : ∀ a t, m.exec s = (.ok a, t) → Keeps cs (f a) t plan) :
    Keeps cs (m >>= f) s plan :=
  h.bind h'

/-- A part that plans no call may come after any other. -/
theorem Keeps.bind_nil {m : RunM σ α} {f : α → RunM σ β} {plan : List Call}
    (h : Keeps cs m s plan) (h' : ∀ a t, Keeps cs (f a) t []) : Keeps cs (m >>= f) s plan := by
  rw [← List.append_nil plan]
  exact h.bind fun a t _ => h' a t

/-! ## The parts of a run -/

/-- To return a value makes no calls. -/
theorem keeps_pure (a : α) : Keeps cs (pure a) s [] :=
  ⟨[], .of_silent rfl rfl rfl List.prefix_rfl⟩

/-- To enter the next phase makes no calls. -/
theorem keeps_advance : Keeps cs advance s [] :=
  ⟨[], .of_silent rfl rfl rfl (List.prefix_append _ _)⟩

/-- To look up the phase ahead makes no calls. -/
theorem keeps_target : Keeps cs target s [] :=
  ⟨[], .of_silent rfl rfl rfl List.prefix_rfl⟩

/-- A step that is taken only before a cancellation keeps to its plan if it does so then. -/
theorem keeps_cancellable {phase : Phase} {step : Phase → RunM σ α} {plan : List Call}
    (h : s.cancelled = false → Keeps cs (step phase) s plan) :
    Keeps cs (cancellable phase step) s plan := by
  cases hc : s.cancelled with
  | true =>
    have hexec : (cancellable phase step).exec s = (.error (.cancelled phase), s) := by
      rw [exec_cancellable, if_pos hc]
    exact ⟨[], .of_error hexec _⟩
  | false =>
    have hexec : (cancellable phase step).exec s = (step phase).exec s := by
      rw [exec_cancellable, if_neg (by simp [hc])]
    obtain ⟨made, hleads, hwithin, hcomplete, hhalts, hquiet⟩ := h hc
    rw [← hexec] at hleads hcomplete
    exact ⟨made, hleads, hwithin, hcomplete, hhalts, hquiet⟩

/-- The same for a step on the way to the next phase. -/
theorem keeps_proceed {step : Phase → RunM σ α} {plan : List Call}
    (h : s.cancelled = false → ∀ phase, Keeps cs (step phase) s plan) :
    Keeps cs (proceed step) s plan :=
  keeps_target.bind_of_nil fun phase t ht => by
    obtain rfl : s = t := (Prod.mk.inj ht).2
    exact keeps_cancellable fun hc => h hc phase

/-- A call that does not leave anything to be said is made once. -/
theorem keeps_attempt {phase : Phase} {c : Call} {failed : Failure → DeployError}
    {call : σ → Reply (Except Failure α) × σ} (hc : s.cancelled = false)
    (hact : (call s.world).2 = cs.act s.world c)
    (hstruck : (call s.world).1.struck = cs.struck s.world c)
    (hfollow : MayFollow cs s.world [] c) :
    Keeps cs (attempt c failed call phase) s [c] := by
  refine ⟨[c], ?_, List.prefix_rfl, fun _ _ => rfl, halts_singleton hfollow, by simp [hc]⟩
  rw [exec_attempt_snd, hact, hstruck, ← s.made_singleton]
  exact leads_made s [c]

/-- Such a call on the way to the next phase. -/
theorem keeps_proceed_attempt {c : Call} {failed : Failure → DeployError}
    {call : σ → Reply (Except Failure α) × σ} (hact : (call s.world).2 = cs.act s.world c)
    (hstruck : (call s.world).1.struck = cs.struck s.world c)
    (hfollow : MayFollow cs s.world [] c) :
    Keeps cs (proceed (attempt c failed call)) s [c] :=
  keeps_proceed fun hc _ => keeps_attempt hc hact hstruck hfollow

/-- A diff that is fetched is shown, also if the run is cancelled meanwhile. -/
theorem keeps_presentDiff (manifest : ByteArray) :
    Keeps cs (proceed (presentDiff cs manifest)) s
      (.diff manifest :: (cs.fetched s.world manifest).map (.say ·.render)) := by
  refine keeps_proceed fun hc phase => ?_
  refine ⟨_, ?_, List.prefix_rfl, fun _ _ => rfl, halts_diff manifest, by simp [hc]⟩
  rw [exec_presentDiff]
  exact leads_made s _

/-- The uploads that some releases need, in order, up to the first version that cannot be read. -/
def uploads : List Release → List UploadRequest
  | [] => []
  | r :: rs =>
    match r.uploadRequest? with
    | .error _ => []
    | .ok request? => request?.toList ++ uploads rs

/-- If all versions can be read, no upload is left out. -/
theorem uploads_eq_of_mapM {rs : List Release} {requests : List (Option UploadRequest)}
    (h : rs.mapM Release.uploadRequest? = .ok requests) : uploads rs = requests.filterMap id := by
  induction rs generalizing requests with
  | nil =>
    cases h
    rfl
  | cons r rs ih =>
    rw [List.mapM_cons] at h
    obtain ⟨request?, hr, h⟩ := bind_eq_ok_iff.1 h
    obtain ⟨rest, hrest, h⟩ := bind_eq_ok_iff.1 h
    obtain rfl := Except.ok.inj h
    cases request? with
    | none => simp [uploads, hr, ih hrest]
    | some request => simp [uploads, hr, ih hrest]

/-- The releases that have an address are uploaded one after the other. -/
theorem keeps_sync (rs : List Release) :
    Keeps cs (sync cs rs) s ((uploads rs).map .upload) := by
  induction rs generalizing s with
  | nil => exact keeps_pure _
  | cons r rs ih =>
    rw [uploads]
    cases hr : r.uploadRequest? with
    | error e =>
      have hexec : (sync cs (r :: rs)).exec s = (.error (.versionFormat e), s) := by
        simp [sync, hr]
      exact ⟨[], .of_error hexec _⟩
    | ok request? =>
      cases request? with
      | none =>
        rw [sync, hr]
        exact ih.bind_nil fun summary t => keeps_pure _
      | some request =>
        rw [sync, hr]
        have hupload : Keeps cs (cancellable .releasesSynced
            (attempt (.upload request) (.upload request.name) (cs.upload request))) s
            [.upload request] :=
          keeps_cancellable fun hc => keeps_attempt hc rfl rfl rfl
        exact hupload.bind fun outcome t _ => ih.bind_nil fun summary t => keeps_pure _

/-- Releases that have been synchronised have versions that can be read. -/
theorem mapM_of_exec_sync {rs : List Release} {summary : SyncSummary}
    (h : (sync cs rs).exec s = (.ok summary, t)) :
    ∃ requests, rs.mapM Release.uploadRequest? = .ok requests := by
  induction rs generalizing s t summary with
  | nil => exact ⟨[], rfl⟩
  | cons r rs ih =>
    cases hr : r.uploadRequest? with
    | error e => simp [sync, hr] at h
    | ok request? =>
      have hrest : ∃ rest, rs.mapM Release.uploadRequest? = .ok rest := by
        cases request? with
        | none =>
          rw [sync, hr] at h
          obtain ⟨_, _, hsync, -⟩ := exec_bind_eq_ok_iff.1 h
          exact ih hsync
        | some request =>
          rw [sync, hr] at h
          obtain ⟨_, _, -, hrest⟩ := exec_bind_eq_ok_iff.1 h
          obtain ⟨_, _, hsync, -⟩ := exec_bind_eq_ok_iff.1 hrest
          exact ih hsync
      obtain ⟨rest, hrest⟩ := hrest
      exact ⟨request? :: rest, by simp [List.mapM_cons, hr, hrest]⟩

end Rollout.Deploy
