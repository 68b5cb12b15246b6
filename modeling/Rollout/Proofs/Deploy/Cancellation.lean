import Rollout.Proofs.Deploy.Clearance

/-!
# Cancellation

A run that is cancelled before it begins does nothing. One that is cancelled during a call to the
store, the uploader or the user makes no further call, except that the lines of the diff that the
call has fetched are said. It fails unless it was the update that went on, and that succeeded. A run
that is cancelled while its sources are loaded or something is said finishes at most the step that
it is in. The main statement is `cancellation_stops_run`.
-/

namespace Rollout.Deploy

variable {σ : Type} {cs : Collaborators σ} {request : DeployRequest} {w : σ} {cancelled : Bool}

/-- A run has been cancelled in the end if it was before it began or during one of its calls. -/
theorem final_cancelled : (final cs request w cancelled).cancelled =
    (cancelled || cs.anyStruck w (calls cs request w cancelled)) := by
  have hexec : (final cs request w cancelled).cancelled =
      ((steps cs request).exec { world := w, cancelled }).2.cancelled := by
    rw [final, execute, ← RunM.exec]
    rcases (steps cs request).exec { world := w, cancelled } with ⟨e | summary, t⟩ <;> rfl
  rw [hexec]
  exact course_calls.leads.cancelled

/-- No update follows a call that the cancellation strikes. -/
theorem update_notMem_of_mayFollow {after : List Call} {c : Call} {u : UpdateRequest}
    (h : MayFollow cs w after c) : .update u ∉ after := by
  intro hu
  cases c with
  | load source =>
    rcases h _ hu with ⟨source', hload⟩ | hsay
    · cases hload
    · cases hsay
  | say text =>
    obtain ⟨line, hline⟩ := h _ hu
    cases hline
  | diff manifest =>
    rw [(h : after = _)] at hu
    obtain ⟨line, -, hline⟩ := List.mem_map.1 hu
    cases hline
  | _ =>
    rw [(h : after = [])] at hu
    cases hu

/-- What follows a call that the cancellation strikes. -/
theorem follows_of_struck {after : List Call} {c : Call} (h : MayFollow cs w after c)
    (hc : cs.struck w c = true) :
    after = [] ∨
      (∃ manifest lines, c = .diff manifest ∧
        (cs.diff manifest w).1 = .returned (.ok lines) true ∧
        after = lines.map (.say ·.render)) ∨
      (∃ source, c = .load source ∧
        ∀ d ∈ after, (∃ source, d = .load source) ∨ d = .say (banner cs.deployment)) ∨
      ∃ text, c = .say text ∧ ∀ d ∈ after, ∃ line : DiffLine, d = .say line.render := by
  cases c with
  | load source => exact .inr (.inr (.inl ⟨source, rfl, h⟩))
  | say text => exact .inr (.inr (.inr ⟨text, rfl, h⟩))
  | diff manifest =>
    rw [MayFollow, Collaborators.fetched] at h
    rw [Collaborators.struck] at hc
    rcases hreply : (cs.diff manifest w).1 with (e | lines) | _
    · rw [hreply] at h
      exact .inl h
    · rw [hreply] at h hc
      obtain rfl := hc
      exact .inr (.inl ⟨manifest, lines, rfl, hreply, h⟩)
    · rw [hreply] at h
      exact .inl h
  | _ => exact .inl h

/-- A run that is cancelled before it begins makes no call. -/
theorem exec_opening_of_cancelled {s : State σ} (h : s.cancelled = true) :
    (opening cs request).exec s = (.error (.cancelled s.phase.target), s) := by
  rw [opening, exec_bind, exec_proceed, if_pos h]

/-- A run that is cancelled during a call succeeds if and only if the call is an update that
succeeds. -/
theorem result_eq_ok_iff_of_struck {before after : List Call} {c : Call}
    (h : calls cs request w cancelled = before ++ c :: after)
    (hc : cs.struck (cs.after w before) c = true) :
    (∃ report, result cs request w cancelled = .ok report) ↔
      ∃ u, c = .update u ∧ (cs.update u (cs.after w before)).1 = .returned (.ok ()) true := by
  have hfollow : MayFollow cs (cs.after w before) after c := course_calls.halts before c after h hc
  rw [result_eq_ok_iff_update]
  constructor
  · rintro ⟨before', u, flag, hcalls, hreply⟩
    rw [h] at hcalls
    rcases List.eq_nil_or_concat after with rfl | ⟨more, last, rfl⟩
    · obtain ⟨rfl, hupdate⟩ := List.append_inj' hcalls rfl
      obtain rfl := List.singleton_inj.1 hupdate
      rw [Collaborators.struck, hreply] at hc
      obtain rfl : flag = true := hc
      exact ⟨u, rfl, hreply⟩
    · -- the update would have to follow the struck call
      rw [List.concat_eq_append] at hcalls hfollow
      rw [← List.cons_append, ← List.append_assoc] at hcalls
      obtain ⟨-, hupdate⟩ := List.append_inj' hcalls rfl
      obtain rfl := List.singleton_inj.1 hupdate
      exact absurd (List.mem_append_right _ List.mem_cons_self) (update_notMem_of_mayFollow hfollow)
  · rintro ⟨u, rfl, hreply⟩
    obtain rfl : after = [] := hfollow
    exact ⟨before, u, true, h, hreply⟩

/-- Cancellation stops a run. A run that was cancelled before it began makes no call and fails. Any
other is cancelled in the end only if the cancellation struck one of its calls. Nothing follows such
a call, except that the lines of a diff that it has returned are said; that the loading of a source
may be followed by further loads and by the name of the deployment; and that what is said while the
lines of a diff are shown may be followed by the further lines. The run fails unless the call is the
update and returns a success. -/
theorem cancellation_stops_run (cs : Collaborators σ) (request : DeployRequest) (w : σ) :
    (calls cs request w true = [] ∧
      result cs request w true = .error (.cancelled .interpolated)) ∧
    (final cs request w false).cancelled = cs.anyStruck w (calls cs request w false) ∧
    ∀ before c after, calls cs request w false = before ++ c :: after →
      cs.struck (cs.after w before) c = true →
        (after = [] ∨
          (∃ manifest lines, c = .diff manifest ∧
            (cs.diff manifest (cs.after w before)).1 = .returned (.ok lines) true ∧
            after = lines.map (.say ·.render)) ∨
          (∃ source, c = .load source ∧
            ∀ d ∈ after, (∃ source, d = .load source) ∨ d = .say (banner cs.deployment)) ∨
          ∃ text, c = .say text ∧ ∀ d ∈ after, ∃ line : DiffLine, d = .say line.render) ∧
        ((∃ report, result cs request w false = .ok report) ↔
          ∃ u, c = .update u ∧
            (cs.update u (cs.after w before)).1 = .returned (.ok ()) true) := by
  refine ⟨?_, final_cancelled, ?_⟩
  · have hopening : (opening cs request).exec { world := w, cancelled := true } = _ :=
      exec_opening_of_cancelled rfl
    obtain ⟨hresult, hfinal⟩ := final_of_exec_opening_error hopening
    exact ⟨by rw [calls, hfinal], hresult⟩
  · intro before c after h hc
    have hfollow : MayFollow cs (cs.after w before) after c :=
      course_calls.halts before c after h hc
    exact ⟨follows_of_struck hfollow hc, result_eq_ok_iff_of_struck h hc⟩

/-- The sample run, cancelled while the diff is fetched. -/
def cancelledSample : Script := { sampleScript with cancellation := some ⟨.diff, false⟩ }

/-- The diff is still shown, and then the run ends without a report. -/
theorem cancellation_stops_run_sample :
    calls cancelledSample.collaborators sampleRequest {} false =
        [.say "Using deployment 'web'\n", .diff sampleRequest.manifest, .say "+ nginx\n"] ∧
      ¬∃ report, result cancelledSample.collaborators sampleRequest {} false = .ok report := by
  have hcalls : calls cancelledSample.collaborators sampleRequest {} false =
      [.say "Using deployment 'web'\n", .diff sampleRequest.manifest, .say "+ nginx\n"] := by
    decide +kernel
  refine ⟨hcalls, fun h => ?_⟩
  have hstopped := (cancellation_stops_run cancelledSample.collaborators sampleRequest {}).2.2
    [.say "Using deployment 'web'\n"] (.diff sampleRequest.manifest) [.say "+ nginx\n"] hcalls rfl
  obtain ⟨u, hu, -⟩ := hstopped.2.1 h
  cases hu

end Rollout.Deploy
