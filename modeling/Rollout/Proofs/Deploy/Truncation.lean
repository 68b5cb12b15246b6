import Rollout.Proofs.Deploy.Plan

/-!
# Cancellation cuts a run short

A run that is cancelled is compared with the same run without the cancellation. Collaborators are
`Disturbed` next to calm ones if they answer alike, except that the run may be cancelled during any
of their calls, and that such a call may then never return.

`Truncates` relates a part of a run to the same part with calm collaborators: either both come out
alike, or the first one ends as cancelled, on the way to the phase after the last one that it has
reached, with calls that the second one makes as well. The relation is kept when parts are put one
after the other (`Truncates.bind`), so that each part of a run is looked at once. The main statement
is `cancellation_truncates`.
-/

namespace Rollout

variable {σ α β : Type}

/-- How a call ends that may be disturbed, next to how it ends if it is not: it returns the same,
perhaps with the run cancelled meanwhile, or it is abandoned. -/
inductive Reply.Disturbed : Reply α × σ → Reply α × σ → Prop
  | returned (result : α) (cancelled : Bool) (w : σ) :
    Disturbed (.returned result cancelled, w) (.returned result false, w)
  | abandoned (w' : σ) (result : α) (w : σ) :
    Disturbed (.abandoned, w') (.returned result false, w)

/-- Collaborators during whose calls the run may be cancelled, next to calm ones with the same
answers. -/
structure Collaborators.Disturbed (cs calm : Collaborators σ) : Prop where
  deployment : cs.deployment = calm.deployment
  load : ∀ source w, Reply.Disturbed (cs.load source w) (calm.load source w)
  say : ∀ text w, calm.say text w = (false, (cs.say text w).2)
  diff : ∀ manifest w, Reply.Disturbed (cs.diff manifest w) (calm.diff manifest w)
  confirm : ∀ w, Reply.Disturbed (cs.confirm w) (calm.confirm w)
  upload : ∀ request w, Reply.Disturbed (cs.upload request w) (calm.upload request w)
  update : ∀ request w, Reply.Disturbed (cs.update request w) (calm.update request w)

namespace Deploy

/-- A script without its cancellation. -/
def Script.calm (s : Script) : Script := { s with cancellation := none }

variable {cs calm : Collaborators σ} {p q r phase : Phase}

/-! ## Two runs side by side -/

/-- The state as it would be if the run had not been cancelled. -/
def State.calmed (s : State σ) : State σ := { s with cancelled := false }

/-- The last phase that a run has reached. -/
def State.reached (s : State σ) : Phase := s.steps.getLast?.getD .start

/-- A run that goes on is in the last phase that it has reached. -/
structure State.At (s : State σ) (p : Phase) : Prop where
  phase : s.phase = p
  reached : s.reached = p

/-- How a part of a run comes out next to how it comes out with calm collaborators. If it succeeds,
then in the phase `q`. -/
inductive Agree (q : Phase) :
    Except DeployError α × State σ → Except DeployError α × State σ → Prop
  | same {result : Except DeployError α} {t : State σ} (place : ∀ a, result = .ok a → t.At q) :
    Agree q (result, t) (result, t.calmed)
  | cut {result : Except DeployError α} {t t' : State σ} {p phase : Phase} (place : t.At p)
    (next : p.next? = some phase) (calls : t.calls <+: t'.calls) :
    Agree q (.error (.cancelled phase), t) (result, t')

/-- From the phase `p` on, the cancellation does nothing to a part of a run but to cut it short. If
the part succeeds, then in the phase `q`. -/
structure Truncates (p q : Phase) (m m' : RunM σ α) : Prop where
  grows : ∀ s, s.calls <+: (m'.exec s).2.calls
  agree : ∀ s, s.At p → Agree q (m.exec s) (m'.exec s.calmed)

/-- What is true of two parts is true of both one after the other. -/
theorem Truncates.bind {m m' : RunM σ α} {f f' : α → RunM σ β} (h : Truncates p q m m')
    (h' : ∀ a, Truncates q r (f a) (f' a)) : Truncates p r (m >>= f) (m' >>= f') where
  grows s := by
    have hm : s.calls <+: (m'.exec s).2.calls := h.grows s
    rw [exec_bind]
    generalize m'.exec s = x at hm ⊢
    obtain ⟨e | a, t⟩ := x
    · exact hm
    · exact hm.trans ((h' a).grows t)
  agree s hs := by
    have hm : Agree q (m.exec s) (m'.exec s.calmed) := h.agree s hs
    rw [exec_bind, exec_bind]
    generalize m.exec s = x at hm ⊢
    generalize m'.exec s.calmed = x' at hm ⊢
    cases hm with
    | @same result t place =>
      cases result with
      | error e => exact .same fun a ha => nomatch ha
      | ok a => exact (h' a).agree t (place a rfl)
    | @cut result t t' _ _ place next calls =>
      -- the calm run goes on, and its calls become more
      cases result with
      | error e => exact .cut place next calls
      | ok a => exact .cut place next (calls.trans ((h' a).grows t'))

/-! ## The parts of a run -/

/-- A part that only adds calls and does not notice whether the run has been cancelled. -/
theorem Truncates.of_exec {m m' : RunM σ α} (result : Except DeployError α) (world : σ → σ)
    (made : List Call)
    (h : ∀ s, m.exec s =
      (result, { s with world := world s.world, calls := s.calls ++ made }))
    (h' : ∀ s, m'.exec s =
      (result, { s with world := world s.world, calls := s.calls ++ made })) :
    Truncates p p m m' where
  grows s := by
    rw [h']
    exact List.prefix_append _ _
  agree s hs := by
    rw [h, h']
    exact .same fun _ _ => ⟨hs.phase, hs.reached⟩

/-- To return a value is the same with and without a cancellation. -/
theorem truncates_pure (a : α) : Truncates p p (pure a : RunM σ α) (pure a) :=
  .of_exec (.ok a) id [] (by simp) (by simp)

/-- To fail is the same with and without a cancellation. -/
theorem truncates_throw (e : DeployError) : Truncates p p (throw e : RunM σ α) (throw e) :=
  .of_exec (.error e) id [] (by simp) (by simp)

/-- Validation does not notice a cancellation. -/
theorem truncates_validated (deployment : String) (bytes : ByteArray) :
    Truncates p p (validated deployment bytes : RunM σ _) (validated deployment bytes) :=
  .of_exec ((validManifest deployment bytes).map fun m => (m, m.releases)) id []
    (by simp [exec_validated]) (by simp [exec_validated])

/-- What is said is said also if the run has been cancelled. -/
theorem truncates_say (h : cs.Disturbed calm) (text : String) :
    Truncates p p (say cs text) (say calm text) where
  grows s := by
    rw [exec_say]
    exact List.prefix_append _ _
  agree s hs := by
    have hcalm : s.calmed.made calm [.say text] = (s.made cs [.say text]).calmed := by
      rw [s.made_singleton, State.made_singleton, Collaborators.act, Collaborators.struck, h.say]
      rfl
    rw [exec_say, exec_say, hcalm]
    exact .same fun _ _ => ⟨hs.phase, hs.reached⟩

/-- A run enters the next phase also if it has been cancelled. -/
theorem truncates_advance (h : p.next? = some q) :
    Truncates p q (advance : RunM σ Unit) advance where
  grows s := List.prefix_rfl
  agree s hs := by
    have htarget : s.phase.target = q := by rw [hs.phase, Phase.target, h, Option.getD_some]
    refine .same fun _ _ => ⟨htarget, ?_⟩
    rw [State.reached, List.getLast?_concat]
    exact htarget

/-- A call that is made while the run works towards the phase after the one it has reached. -/
theorem truncates_awaited {c : Call} {call call' : σ → Reply α × σ} (hnext : p.next? = some phase)
    (h : ∀ w, Reply.Disturbed (call w) (call' w)) :
    Truncates p p (awaited c call phase) (awaited c call' phase) where
  grows s := by
    rw [exec_awaited_snd]
    exact List.prefix_append _ _
  agree s hs := by
    have hreply : Reply.Disturbed (call s.world) (call' s.calmed.world) := h s.world
    have hplace : ∀ w b, (s.called c w b).At p := fun _ _ => ⟨hs.phase, hs.reached⟩
    rw [exec_awaited, exec_awaited]
    generalize call s.world = x at hreply ⊢
    generalize call' s.calmed.world = x' at hreply ⊢
    cases hreply with
    | returned result cancelled w => exact .same fun _ _ => hplace w cancelled
    | abandoned w' result w => exact .cut (hplace w' true) hnext List.prefix_rfl

/-- A call that may fail is made and left in the same way. -/
theorem truncates_attempt {c : Call} {failed : Failure → DeployError}
    {call call' : σ → Reply (Except Failure α) × σ} (hnext : p.next? = some phase)
    (h : ∀ w, Reply.Disturbed (call w) (call' w)) :
    Truncates p p (attempt c failed call phase) (attempt c failed call' phase) :=
  (truncates_awaited hnext h).bind fun
    | .ok a => truncates_pure a
    | .error f => truncates_throw (failed f)

/-- A run that has been cancelled does not take a step that the calm run takes. -/
theorem truncates_cancellable {step step' : Phase → RunM σ α} (hnext : p.next? = some phase)
    (h : Truncates p p (step phase) (step' phase)) :
    Truncates p p (cancellable phase step) (cancellable phase step') where
  grows s := by
    rw [exec_cancellable]
    split
    · exact List.prefix_rfl
    · exact h.grows s
  agree s hs := by
    have hcalm : (cancellable phase step').exec s.calmed = (step' phase).exec s.calmed := by
      rw [exec_cancellable, if_neg (by simp [State.calmed])]
    rw [exec_cancellable, hcalm]
    cases hc : s.cancelled with
    | true => exact .cut hs hnext (h.grows s.calmed)
    | false => exact h.agree s hs

/-- The same for the step towards the next phase, which is the one that the run works towards. -/
theorem truncates_proceed {step step' : Phase → RunM σ α} (hnext : p.next? = some phase)
    (hgrows : ∀ (phase : Phase) (s : State σ), s.calls <+: ((step' phase).exec s).2.calls)
    (h : Truncates p p (step phase) (step' phase)) :
    Truncates p p (proceed step) (proceed step') where
  grows s := by
    rw [exec_proceed]
    split
    · exact List.prefix_rfl
    · exact hgrows s.phase.target s
  agree s hs := by
    have htarget : s.phase.target = phase := by
      rw [hs.phase, Phase.target, hnext, Option.getD_some]
    rw [exec_proceed, exec_proceed, ← exec_cancellable, ← exec_cancellable, State.calmed, htarget]
    exact (truncates_cancellable hnext h).agree s hs

/-- A call that may fail, on the way to the next phase. -/
theorem truncates_proceed_attempt {c : Call} {failed : Failure → DeployError}
    {call call' : σ → Reply (Except Failure α) × σ} (hnext : p.next? = some phase)
    (h : ∀ w, Reply.Disturbed (call w) (call' w)) :
    Truncates p p (proceed (attempt c failed call)) (proceed (attempt c failed call')) := by
  refine truncates_proceed hnext (fun phase s => ?_) (truncates_attempt hnext h)
  rw [exec_attempt_snd]
  exact List.prefix_append _ _

/-- Parts that are cut short one by one are cut short as a whole. -/
theorem truncates_mapM {f f' : β → RunM σ α} (h : ∀ b, Truncates p p (f b) (f' b)) (bs : List β) :
    Truncates p p (bs.mapM f) (bs.mapM f') := by
  induction bs with
  | nil => exact truncates_pure []
  | cons b bs ih =>
    rw [List.mapM_cons, List.mapM_cons]
    exact (h b).bind fun a => ih.bind fun as => truncates_pure (a :: as)

/-- The loading of a source is left if the run is cancelled meanwhile and it does not end. -/
theorem truncates_file (h : cs.Disturbed calm) (hnext : p.next? = some phase)
    (source : VariableSource) :
    Truncates p p (source.file (load cs phase)) (source.file (load calm phase)) := by
  have hload : Truncates p p (load cs phase source) (load calm phase source) :=
    (truncates_awaited hnext (h.load source.name)).bind fun _ => truncates_pure source.content
  exact hload.bind fun
    | .ok _ => truncates_pure _
    | .error reason => truncates_throw (.variablesFile source.name reason)

/-- The interpolation comes to its end unless a source is left. -/
theorem truncates_interpolated (h : cs.Disturbed calm) (hnext : p.next? = some phase)
    (request : DeployRequest) :
    Truncates p p (interpolated cs request phase) (interpolated calm request phase) := by
  have hresolve : Truncates p p (request.vars.resolve (load cs phase))
      (request.vars.resolve (load calm phase)) :=
    (truncates_mapM (truncates_file h hnext) request.vars.sources).bind fun _ =>
      truncates_pure _
  refine hresolve.bind fun vars => ?_
  cases interpolate request.manifest vars with
  | ok text => exact truncates_pure text.toUTF8
  | error e => exact truncates_throw e

/-- Whether the run goes on after the interpolation is cut off in step with the calm run. -/
theorem truncates_proceed_interpolated (h : cs.Disturbed calm) (hnext : p.next? = some phase)
    (request : DeployRequest) :
    Truncates p p (proceed (interpolated cs request)) (proceed (interpolated calm request)) := by
  refine truncates_proceed hnext (fun phase s => ?_) (truncates_interpolated h hnext request)
  cases hreturn : calm.allReturn s.world (loadCalls request.vars.sources) with
  | true =>
    rw [exec_interpolated calm phase hreturn]
    exact List.prefix_append _ _
  | false =>
    obtain ⟨made, -, hexec⟩ := exec_interpolated_abandoned calm phase hreturn
    rw [hexec]
    exact List.prefix_append _ _

/-- The lines of a diff are said to the last one. -/
theorem truncates_sayLines (h : cs.Disturbed calm) (lines : List DiffLine) :
    Truncates p p (sayLines cs lines) (sayLines calm lines) := by
  induction lines with
  | nil => exact truncates_pure ()
  | cons line lines ih => exact (truncates_say h line.render).bind fun _ => ih

/-- The diff is shown as a whole, or not at all. -/
theorem truncates_presentDiff (h : cs.Disturbed calm) (hnext : p.next? = some phase)
    (manifest : ByteArray) :
    Truncates p p (proceed (presentDiff cs manifest)) (proceed (presentDiff calm manifest)) := by
  have hdiff : Truncates p p (presentDiff cs manifest phase) (presentDiff calm manifest phase) := by
    refine (truncates_attempt hnext (h.diff manifest)).bind fun lines => ?_
    exact (truncates_sayLines h lines).bind fun _ => truncates_pure lines.length
  refine truncates_proceed hnext (fun phase s => ?_) hdiff
  rw [exec_presentDiff]
  exact List.prefix_append _ _

/-- The phase that the uploads are made for is the one that the run works towards. -/
theorem truncates_sync (h : cs.Disturbed calm) (rs : List Release) :
    Truncates .confirmed .confirmed (sync cs rs) (sync calm rs) := by
  induction rs with
  | nil => exact truncates_pure _
  | cons r rs ih =>
    rw [sync, sync]
    cases r.uploadRequest? with
    | error e => exact truncates_throw _
    | ok request? =>
      cases request? with
      | none => exact ih.bind fun summary => truncates_pure _
      | some request =>
        refine Truncates.bind (truncates_cancellable rfl (truncates_attempt rfl (h.upload request)))
          fun outcome => ?_
        exact ih.bind fun summary => truncates_pure _

/-- The steps of a run, from the first to the last. -/
theorem truncates_steps (h : cs.Disturbed calm) (request : DeployRequest) :
    Truncates .start .updated (steps cs request) (steps calm request) := by
  rw [steps, steps, h.deployment]
  refine (truncates_proceed_interpolated h rfl request).bind fun bytes => ?_
  refine (truncates_advance (q := .interpolated) rfl).bind fun _ => ?_
  refine (truncates_validated calm.deployment bytes).bind fun validated => ?_
  obtain ⟨manifest, releases⟩ := validated
  refine (truncates_advance (q := .validated) rfl).bind fun _ => ?_
  refine (truncates_say h _).bind fun _ => ?_
  refine (truncates_presentDiff h rfl manifest.bytes).bind fun _ => ?_
  refine (truncates_advance (q := .diffed) rfl).bind fun _ => ?_
  refine (truncates_proceed_attempt rfl h.confirm).bind fun _ => ?_
  refine (truncates_advance (q := .confirmed) rfl).bind fun _ => ?_
  refine (truncates_sync h releases).bind fun summary => ?_
  refine (truncates_advance (q := .releasesSynced) rfl).bind fun _ => ?_
  refine (truncates_proceed_attempt rfl (h.update _)).bind fun _ => ?_
  exact (truncates_advance (q := .updated) rfl).bind fun _ => truncates_pure summary

/-! ## Runs -/

variable {request : DeployRequest} {w : σ} {cancelled : Bool}

/-- The last phase that a run has reached when it ends. -/
def reached (cs : Collaborators σ) (request : DeployRequest) (w : σ) (cancelled : Bool) : Phase :=
  (final cs request w cancelled).reached

/-- A run next to the same run without a cancellation. -/
theorem truncates_run (h : cs.Disturbed calm) :
    calls cs request w cancelled <+: calls calm request w false ∧
      (calls cs request w cancelled = calls calm request w false ∧
          result cs request w cancelled = result calm request w false ∨
        ∃ phase, (reached cs request w cancelled).next? = some phase ∧
          result cs request w cancelled = .error (.cancelled phase)) := by
  have hsteps : Agree .updated ((steps cs request).exec { world := w, cancelled })
      ((steps calm request).exec { world := w, cancelled := false }) :=
    (truncates_steps h request).agree { world := w, cancelled } ⟨rfl, rfl⟩
  rw [calls, calls, reached, result, result, final, final, execute, execute, ← RunM.exec,
    ← RunM.exec]
  generalize (steps cs request).exec { world := w, cancelled } = x at hsteps ⊢
  generalize (steps calm request).exec { world := w, cancelled := false } = x' at hsteps ⊢
  cases hsteps with
  | @same result t place =>
    cases result with
    | error e => exact ⟨List.prefix_rfl, .inl ⟨rfl, rfl⟩⟩
    | ok summary =>
      refine ⟨List.prefix_rfl, .inl ⟨rfl, ?_⟩⟩
      rw [h.deployment]
      rfl
  | @cut result t t' _ phase place next hcalls =>
    have hreached : t.reached.next? = some phase := by rw [place.reached, next]
    cases result with
    | error e => exact ⟨hcalls, .inr ⟨phase, hreached, rfl⟩⟩
    | ok summary => exact ⟨hcalls, .inr ⟨phase, hreached, rfl⟩⟩

/-- A scripted call is disturbed by the cancellation of its script at most. -/
theorem Script.disturbed_reply (s : Script) (point : CancelPoint) (result : α) (w : σ) :
    Reply.Disturbed (s.reply point result, w) (s.calm.reply point result, w) := by
  have hcalm : s.calm.reply point result = .returned result false := rfl
  rw [hcalm, Script.reply]
  split
  · exact .abandoned w result w
  · exact .returned result _ w

/-- Scripted collaborators next to those of the same script without its cancellation. -/
theorem Script.disturbed_collaborators (s : Script) :
    s.collaborators.Disturbed s.calm.collaborators where
  deployment := rfl
  load _ _ := s.disturbed_reply _ _ _
  say _ _ := rfl
  diff _ _ := s.disturbed_reply _ _ _
  confirm _ := s.disturbed_reply _ _ _
  upload _ _ := s.disturbed_reply _ _ _
  update _ _ := s.disturbed_reply _ _ _

/-- Cancellation only cuts a run short, wherever it strikes and whether the call that it strikes
returns or not. The calls of the run are the first of those that it makes without the cancellation;
and the run either makes all of these calls and comes out as it does without the cancellation, or it
fails as cancelled on the way to the phase after the last one that it has reached. -/
theorem cancellation_truncates (s : Script) (request : DeployRequest) :
    (s.run request).2 <+: (s.calm.run request).2 ∧
      (s.run request = s.calm.run request ∨
        ∃ phase, (reached s.collaborators request {} s.initial.cancelled).next? = some phase ∧
          (s.run request).1 = .error (.cancelled phase)) := by
  have hrun : s.run request = (result s.collaborators request {} s.initial.cancelled,
      calls s.collaborators request {} s.initial.cancelled) := rfl
  have hcalm : s.calm.run request = (result s.calm.collaborators request {} false,
      calls s.calm.collaborators request {} false) := rfl
  rw [hrun, hcalm, Prod.mk.injEq, and_comm (a := result _ _ _ _ = _)]
  exact truncates_run s.disturbed_collaborators

end Deploy

end Rollout
