import Rollout.Program.Command
import Rollout.Proofs.Deploy.Replay
import Rollout.Proofs.Except

/-!
# How the parts of a run act

A part of a run is a program over the state of the run. `RunM.exec` is what such a part comes to:
its result and the state that it leaves. This file gives one equation for each part that a run is
made of, so that no later proof opens their definitions.

Two functions say without a run what the first half of it comes to: `interpolatedBytes` is the
manifest with everything replaced, from the variables of all sources, and `document` is the manifest
read from these bytes if it declares the deployment.
-/

namespace Rollout.Deploy

variable {σ α β : Type}

/-- The result of a part of a run and the state that it leaves. -/
def RunM.exec (m : RunM σ α) (s : State σ) : Except DeployError α × State σ := m.run.run s

/-- The state after a call that left the world `w`. -/
def State.called (s : State σ) (c : Call) (w : σ) (cancelled : Bool) : State σ :=
  { s with world := w, calls := s.calls ++ [c], cancelled := s.cancelled || cancelled }

/-- The state after some calls, made one after the other. -/
def State.made (s : State σ) (cs : Collaborators σ) (calls : List Call) : State σ :=
  { s with
    world := cs.after s.world calls
    calls := s.calls ++ calls
    cancelled := s.cancelled || cs.anyStruck s.world calls }

/-- A call is made as the collaborators make it. -/
theorem State.made_singleton (s : State σ) (cs : Collaborators σ) (c : Call) :
    s.made cs [c] = s.called c (cs.act s.world c) (cs.struck s.world c) := by
  unfold State.made State.called
  rw [cs.anyStruck_cons, cs.anyStruck_nil, Bool.or_false]
  rfl

@[simp] theorem State.made_nil (s : State σ) (cs : Collaborators σ) : s.made cs [] = s := by
  unfold State.made
  rw [List.append_nil, cs.anyStruck_nil, Bool.or_false]
  rfl

@[simp] theorem State.made_made (s : State σ) (cs : Collaborators σ) (calls calls' : List Call) :
    (s.made cs calls).made cs calls' = s.made cs (calls ++ calls') := by
  unfold State.made
  rw [cs.after_append, cs.anyStruck_append, List.append_assoc, Bool.or_assoc]

/-! ## Sequencing and effects -/

/-- The second part runs from the state that the first one leaves, unless the first one fails. -/
@[simp] theorem exec_bind (m : RunM σ α) (f : α → RunM σ β) (s : State σ) :
    (m >>= f).exec s =
      match m.exec s with
      | (.ok a, t) => (f a).exec t
      | (.error e, t) => (.error e, t) := by
  change (m >>= f).run.run s = _
  rw [ExceptT.run_bind, StateT.run_bind]
  rcases h : m.exec s with ⟨_ | a, t⟩
  all_goals
    rw [RunM.exec] at h
    simp only [h]
    rfl

/-- Two parts one after the other succeed if both do. -/
theorem exec_bind_eq_ok_iff {m : RunM σ α} {f : α → RunM σ β} {s u : State σ} {b : β} :
    (m >>= f).exec s = (.ok b, u) ↔
      ∃ a t, m.exec s = (.ok a, t) ∧ (f a).exec t = (.ok b, u) := by
  rw [exec_bind]
  rcases m.exec s with ⟨e | a, t⟩
  · simp
  · constructor
    · intro h
      exact ⟨a, t, rfl, h⟩
    · rintro ⟨a', t', h, h'⟩
      cases h
      exact h'

/-- What comes after a part of a run matters only from the states in which that part succeeds. -/
theorem exec_bind_congr {m : RunM σ α} {f g : α → RunM σ β} {s : State σ}
    (h : ∀ a t, m.exec s = (.ok a, t) → (f a).exec t = (g a).exec t) :
    (m >>= f).exec s = (m >>= g).exec s := by
  rw [exec_bind, exec_bind]
  rcases hm : m.exec s with ⟨e | a, t⟩
  · rfl
  · exact h a t hm

/-- A result with a function applied to it. -/
@[simp] theorem exec_map (f : α → β) (m : RunM σ α) (s : State σ) :
    (f <$> m).exec s = ((m.exec s).1.map f, (m.exec s).2) := by
  rw [map_eq_pure_bind, exec_bind]
  rcases m.exec s with ⟨_ | a, t⟩ <;> rfl

@[simp] theorem exec_pure (a : α) (s : State σ) : (pure a : RunM σ α).exec s = (.ok a, s) := rfl

@[simp] theorem exec_throw (e : DeployError) (s : State σ) :
    (throw e : RunM σ α).exec s = (.error e, s) := rfl

@[simp] theorem exec_get (s : State σ) : (get : RunM σ (State σ)).exec s = (.ok s, s) := rfl

@[simp] theorem exec_modify (f : State σ → State σ) (s : State σ) :
    (modify f : RunM σ Unit).exec s = (.ok (), f s) := rfl

@[simp] theorem exec_record (c : Call) (s : State σ) :
    (record c : RunM σ Unit).exec s = (.ok (), { s with calls := s.calls ++ [c] }) := rfl

/-- A run enters the phase that it works towards. -/
@[simp] theorem exec_advance (s : State σ) :
    (advance : RunM σ Unit).exec s =
      (.ok (), { s with phase := s.phase.target, steps := s.steps ++ [s.phase.target] }) := rfl

/-- The phase that a run works towards is the one after the phase that it is in. -/
@[simp] theorem exec_target (s : State σ) :
    (target : RunM σ Phase).exec s = (.ok s.phase.target, s) := rfl

/-- Saying something cannot fail and does not notice a cancellation. -/
@[simp] theorem exec_say (cs : Collaborators σ) (text : String) (s : State σ) :
    (say cs text).exec s = (.ok (), s.made cs [.say text]) := by
  rw [s.made_singleton]
  rfl

/-- A checkpoint ends a run that has been cancelled and does nothing else. -/
@[simp] theorem exec_checkpoint (phase : Phase) (s : State σ) :
    (checkpoint phase : RunM σ Unit).exec s =
      (if s.cancelled then .error (.cancelled phase) else .ok (), s) := by
  cases h : s.cancelled <;> simp [checkpoint, h]

/-- A call that is waited for gives what it returns; one that does not return ends the run. -/
theorem exec_awaited (c : Call) (call : σ → Reply α × σ) (phase : Phase) (s : State σ) :
    (awaited c call phase).exec s =
      match call s.world with
      | (.abandoned, w) => (.error (.cancelled phase), s.called c w true)
      | (.returned a b, w) => (.ok a, s.called c w b) := by
  rcases hc : call s.world with ⟨_ | _, w⟩ <;> simp [awaited, State.called, hc]

/-- Waiting for a call makes it, however the call ends. -/
theorem exec_awaited_snd (c : Call) (call : σ → Reply α × σ) (phase : Phase) (s : State σ) :
    ((awaited c call phase).exec s).2 = s.called c (call s.world).2 (call s.world).1.struck := by
  rw [exec_awaited]
  rcases call s.world with ⟨_ | _, w⟩ <;> rfl

/-- A call that may fail succeeds if it returns a result. -/
theorem exec_attempt (c : Call) (failed : Failure → DeployError)
    (call : σ → Reply (Except Failure α) × σ) (phase : Phase) (s : State σ) :
    (attempt c failed call phase).exec s =
      match call s.world with
      | (.abandoned, w) => (.error (.cancelled phase), s.called c w true)
      | (.returned (.ok a) b, w) => (.ok a, s.called c w b)
      | (.returned (.error f) b, w) => (.error (failed f), s.called c w b) := by
  rcases hc : call s.world with ⟨(_ | _) | _, w⟩ <;> simp [attempt, exec_awaited, hc]

/-- An attempt makes its call, however the call ends. -/
theorem exec_attempt_snd (c : Call) (failed : Failure → DeployError)
    (call : σ → Reply (Except Failure α) × σ) (phase : Phase) (s : State σ) :
    ((attempt c failed call phase).exec s).2 =
      s.called c (call s.world).2 (call s.world).1.struck := by
  rw [exec_attempt]
  rcases call s.world with ⟨(_ | _) | _, w⟩ <;> rfl

/-- A step is taken only while the run has not been cancelled. -/
theorem exec_cancellable (phase : Phase) (step : Phase → RunM σ α) (s : State σ) :
    (cancellable phase step).exec s =
      if s.cancelled then (.error (.cancelled phase), s) else (step phase).exec s := by
  cases h : s.cancelled <;> simp [cancellable, h]

/-- The step towards the next phase is taken only while the run has not been cancelled. -/
theorem exec_proceed (step : Phase → RunM σ α) (s : State σ) :
    (proceed step).exec s =
      if s.cancelled then (.error (.cancelled s.phase.target), s)
      else (step s.phase.target).exec s := by
  rw [proceed, exec_bind, exec_target]
  exact exec_cancellable s.phase.target step s

/-- A call succeeds as a step if the run has not been cancelled before and it returns a result. -/
theorem exec_cancellable_eq_ok_iff {phase : Phase} {c : Call} {failed : Failure → DeployError}
    {call : σ → Reply (Except Failure α) × σ} {a : α} {s t : State σ} :
    (cancellable phase (attempt c failed call)).exec s = (.ok a, t) ↔
      s.cancelled = false ∧
        ∃ b w, call s.world = (.returned (.ok a) b, w) ∧ t = s.called c w b := by
  rw [exec_cancellable, exec_attempt]
  cases hc : s.cancelled with
  | true => simp
  | false =>
    rcases call s.world with ⟨(e | a') | _, w⟩
    · simp
    · simp only [Bool.false_eq_true, if_false, Prod.mk.injEq, Except.ok.injEq, true_and,
        Reply.returned.injEq]
      constructor
      · rintro ⟨rfl, rfl⟩
        exact ⟨_, _, ⟨⟨rfl, rfl⟩, rfl⟩, rfl⟩
      · rintro ⟨b, w', ⟨⟨rfl, rfl⟩, rfl⟩, rfl⟩
        exact ⟨rfl, rfl⟩
    · simp

/-- The same for the step towards the next phase. -/
theorem exec_proceed_eq_ok_iff {c : Call} {failed : Failure → DeployError}
    {call : σ → Reply (Except Failure α) × σ} {a : α} {s t : State σ} :
    (proceed (attempt c failed call)).exec s = (.ok a, t) ↔
      s.cancelled = false ∧
        ∃ b w, call s.world = (.returned (.ok a) b, w) ∧ t = s.called c w b := by
  rw [proceed, exec_bind, exec_target]
  exact exec_cancellable_eq_ok_iff

/-! ## Variables, interpolation and validation -/

/-- What a source of variables gives when it is loaded. -/
def sourceFile (source : VariableSource) : Except DeployError VariableFile :=
  source.file fun source => return source.content

/-- It gives a file with its name, unless it cannot be loaded. -/
theorem sourceFile_eq (source : VariableSource) :
    sourceFile source = match source.content with
      | .ok entries => .ok ⟨source.name, entries⟩
      | .error reason => .error (.variablesFile source.name reason) := by
  unfold sourceFile VariableSource.file
  rw [pure_bind]
  cases source.content <;> rfl

/-- Without a run, the sources of a set give their files one after the other. -/
theorem loadAll_eq (vs : VariableSet) :
    Program.loadAll vs = (vs.sources.mapM sourceFile).map (⟨vs.pairs, ·⟩) := rfl

/-- The calls that load some sources, each of them once. -/
def loads (sources : List VariableSource) : List Call := sources.map (.load ·.name)

/-- The calls that load some sources, up to the first one that cannot be loaded. -/
def loadCalls : List VariableSource → List Call
  | [] => []
  | source :: sources =>
    .load source.name :: match source.content with
      | .ok _ => loadCalls sources
      | .error _ => []

/-- Sources are loaded in the order given, and not past a failure. -/
theorem loadCalls_within (sources : List VariableSource) : loadCalls sources <+: loads sources := by
  induction sources with
  | nil => exact List.prefix_rfl
  | cons source sources ih =>
    rw [loadCalls, loads, List.map_cons, List.cons_prefix_cons]
    refine ⟨rfl, ?_⟩
    cases source.content with
    | ok _ => exact ih
    | error _ => exact List.nil_prefix

/-- A call that loads one of some sources loads something. -/
theorem exists_load_of_mem {sources : List VariableSource} {c : Call} (h : c ∈ loads sources) :
    ∃ source, c = .load source := by
  obtain ⟨source, -, rfl⟩ := List.mem_map.1 h
  exact ⟨source.name, rfl⟩

/-- Sources that can all be loaded are all loaded. -/
theorem loadCalls_eq_loads {sources : List VariableSource} {files : List VariableFile}
    (h : sources.mapM sourceFile = .ok files) : loadCalls sources = loads sources := by
  induction sources generalizing files with
  | nil => rfl
  | cons source sources ih =>
    rw [List.mapM_cons] at h
    obtain ⟨file, hfile, h⟩ := bind_eq_ok_iff.1 h
    obtain ⟨rest, hrest, -⟩ := bind_eq_ok_iff.1 h
    rw [loadCalls, ih hrest]
    cases hc : source.content with
    | error reason => simp [sourceFile_eq, hc] at hfile
    | ok entries => rfl

/-- A source that is loaded in a run gives what it holds, unless it is abandoned. -/
theorem exec_file (cs : Collaborators σ) (phase : Phase) (source : VariableSource) (s : State σ) :
    (source.file (load cs phase)).exec s =
      (if cs.returns s.world (.load source.name) then sourceFile source
        else .error (.cancelled phase), s.made cs [.load source.name]) := by
  rw [s.made_singleton, Collaborators.act, Collaborators.struck, Collaborators.returns]
  rcases hreply : cs.load source.name s.world with ⟨_ | _, w⟩
  · cases hc : source.content <;>
      simp [VariableSource.file, load, sourceFile_eq, exec_awaited, Reply.isReturned, hreply, hc]
  · simp [VariableSource.file, load, exec_awaited, Reply.isReturned, hreply]

/-- A source that has been loaded is followed by the others. -/
theorem exec_files_cons (cs : Collaborators σ) (phase : Phase) {source : VariableSource}
    {sources : List VariableSource} {entries : Yaml.Entries} {s : State σ}
    (hc : source.content = .ok entries) (hreturns : cs.returns s.world (.load source.name) = true) :
    ((source :: sources).mapM (VariableSource.file (load cs phase))).exec s =
      let rest := (sources.mapM (VariableSource.file (load cs phase))).exec
        (s.made cs [.load source.name])
      (rest.1.map (⟨source.name, entries⟩ :: ·), rest.2) := by
  rw [List.mapM_cons, exec_bind, exec_file, if_pos hreturns, sourceFile_eq, hc]
  dsimp only
  rw [exec_bind]
  rcases (sources.mapM (VariableSource.file (load cs phase))).exec (s.made cs [.load source.name])
    with ⟨_ | _, t⟩ <;> rfl

/-- Sources that return are loaded up to the first one that cannot be loaded. -/
theorem exec_files (cs : Collaborators σ) (phase : Phase) {sources : List VariableSource}
    {s : State σ} (h : cs.allReturn s.world (loadCalls sources) = true) :
    (sources.mapM (VariableSource.file (load cs phase))).exec s =
      (sources.mapM sourceFile, s.made cs (loadCalls sources)) := by
  induction sources generalizing s with
  | nil => simp [loadCalls]
  | cons source sources ih =>
    rw [loadCalls, cs.allReturn_cons, Bool.and_eq_true] at h
    obtain ⟨hreturns, hrest⟩ := h
    rw [loadCalls]
    cases hc : source.content with
    | error reason =>
      rw [List.mapM_cons, exec_bind, exec_file, if_pos hreturns]
      simp [sourceFile_eq, hc]
    | ok entries =>
      rw [hc] at hrest
      rw [exec_files_cons cs phase hc hreturns, ih hrest, s.made_made, List.mapM_cons,
        sourceFile_eq, hc]
      cases sources.mapM sourceFile <;> rfl

/-- A source that does not return ends the run, and no later one is loaded. -/
theorem exec_files_abandoned (cs : Collaborators σ) (phase : Phase) {sources : List VariableSource}
    {s : State σ} (h : cs.allReturn s.world (loadCalls sources) = false) :
    ∃ made, made <+: loadCalls sources ∧
      (sources.mapM (VariableSource.file (load cs phase))).exec s =
        (.error (.cancelled phase), s.made cs made) := by
  induction sources generalizing s with
  | nil => cases h
  | cons source sources ih =>
    rw [loadCalls, cs.allReturn_cons] at h
    rw [loadCalls]
    cases hreturns : cs.returns s.world (.load source.name) with
    | false =>
      refine ⟨[.load source.name], by simp, ?_⟩
      rw [List.mapM_cons, exec_bind, exec_file, hreturns]
      rfl
    | true =>
      rw [hreturns, Bool.true_and] at h
      cases hc : source.content with
      | error reason =>
        rw [hc] at h
        cases h
      | ok entries =>
        rw [hc] at h
        obtain ⟨made, hmade, hexec⟩ := ih (s := s.made cs [.load source.name]) h
        refine ⟨.load source.name :: made, List.cons_prefix_cons.2 ⟨rfl, hmade⟩, ?_⟩
        rw [exec_files_cons cs phase hc hreturns, hexec, s.made_made]
        rfl

/-- The variables of a run are those that the sources hold, if none of them is abandoned. -/
theorem exec_resolve (cs : Collaborators σ) (phase : Phase) {vs : VariableSet} {s : State σ}
    (h : cs.allReturn s.world (loadCalls vs.sources) = true) :
    (vs.resolve (load cs phase)).exec s =
      (Program.loadAll vs, s.made cs (loadCalls vs.sources)) := by
  rw [loadAll_eq, VariableSet.resolve, exec_bind, exec_files cs phase h]
  cases vs.sources.mapM sourceFile <;> rfl

/-- The bytes of a manifest with everything replaced, from the variables of all sources. -/
def interpolatedBytes (request : DeployRequest) : Except DeployError ByteArray := do
  let vars ← Program.loadAll request.vars
  let text ← interpolate request.manifest vars
  return text.toUTF8

/-- Interpolation needs all sources, and a value for every placeholder. -/
theorem interpolatedBytes_eq_ok_iff {request : DeployRequest} {bytes : ByteArray} :
    interpolatedBytes request = .ok bytes ↔
      ∃ vars text, Program.loadAll request.vars = .ok vars ∧
        interpolate request.manifest vars = .ok text ∧ text.toUTF8 = bytes := by
  rw [interpolatedBytes, bind_eq_ok_iff]
  constructor
  · rintro ⟨vars, hvars, h⟩
    obtain ⟨text, htext, h⟩ := bind_eq_ok_iff.1 h
    exact ⟨vars, text, hvars, htext, Except.ok.inj h⟩
  · rintro ⟨vars, text, hvars, htext, rfl⟩
    exact ⟨vars, hvars, bind_eq_ok_iff.2 ⟨text, htext, rfl⟩⟩

/-- Where interpolation succeeds, all sources have been loaded. -/
theorem loadCalls_of_interpolatedBytes {request : DeployRequest} {bytes : ByteArray}
    (h : interpolatedBytes request = .ok bytes) :
    loadCalls request.vars.sources = loads request.vars.sources := by
  obtain ⟨vars, hvars, -⟩ := bind_eq_ok_iff.1 h
  rw [loadAll_eq, map_eq_ok_iff] at hvars
  obtain ⟨files, hfiles, -⟩ := hvars
  exact loadCalls_eq_loads hfiles

/-- A run interpolates its manifest with what the sources hold, if none of them is abandoned. -/
theorem exec_interpolated (cs : Collaborators σ) (phase : Phase) {request : DeployRequest}
    {s : State σ} (h : cs.allReturn s.world (loadCalls request.vars.sources) = true) :
    (interpolated cs request phase).exec s =
      (interpolatedBytes request, s.made cs (loadCalls request.vars.sources)) := by
  rw [interpolated, exec_bind, exec_resolve cs phase h, interpolatedBytes]
  cases Program.loadAll request.vars with
  | error e => rfl
  | ok vars =>
    rw [ok_bind]
    dsimp only
    cases interpolate request.manifest vars <;> rfl

/-- A run that abandons a source ends with that. -/
theorem exec_interpolated_abandoned (cs : Collaborators σ) (phase : Phase) {request : DeployRequest}
    {s : State σ} (h : cs.allReturn s.world (loadCalls request.vars.sources) = false) :
    ∃ made, made <+: loadCalls request.vars.sources ∧
      (interpolated cs request phase).exec s = (.error (.cancelled phase), s.made cs made) := by
  obtain ⟨made, hmade, hexec⟩ := exec_files_abandoned cs phase h
  refine ⟨made, hmade, ?_⟩
  rw [interpolated, exec_bind, VariableSet.resolve, exec_bind, hexec]

/-- The manifest that some bytes spell out, if it declares the deployment. -/
def validManifest (deployment : String) (bytes : ByteArray) : Except DeployError Manifest := do
  let m ← (Manifest.parse bytes).mapError (.invalidManifest <| .unreadable ·)
  let _ ← m.validateFor deployment
  return m

/-- Interpolation succeeds in a run that has not been cancelled before and abandons no source. -/
theorem exec_interpolated_eq_ok_iff {cs : Collaborators σ} {request : DeployRequest}
    {s t : State σ} {bytes : ByteArray} :
    (proceed (interpolated cs request)).exec s = (.ok bytes, t) ↔
      s.cancelled = false ∧ interpolatedBytes request = .ok bytes ∧
        cs.allReturn s.world (loads request.vars.sources) = true ∧
        t = s.made cs (loads request.vars.sources) := by
  rw [exec_proceed]
  cases hc : s.cancelled with
  | true => simp
  | false =>
    rw [if_neg Bool.false_ne_true]
    cases h : cs.allReturn s.world (loadCalls request.vars.sources) with
    | false =>
      obtain ⟨made, -, hexec⟩ := exec_interpolated_abandoned cs s.phase.target h
      rw [hexec]
      constructor
      · rintro ⟨⟩
      · rintro ⟨-, hbytes, hreturn, -⟩
        rw [loadCalls_of_interpolatedBytes hbytes, hreturn] at h
        cases h
    | true =>
      rw [exec_interpolated cs _ h, Prod.mk.injEq]
      constructor
      · rintro ⟨hbytes, rfl⟩
        rw [loadCalls_of_interpolatedBytes hbytes] at h ⊢
        exact ⟨rfl, hbytes, h, rfl⟩
      · rintro ⟨-, hbytes, -, rfl⟩
        exact ⟨hbytes, by rw [loadCalls_of_interpolatedBytes hbytes]⟩

/-- An interpolation that fails has loaded sources at most, all of them that can be loaded unless
the run is cancelled. -/
theorem exec_interpolated_error {cs : Collaborators σ} {request : DeployRequest} {s t : State σ}
    {e : DeployError} (h : (proceed (interpolated cs request)).exec s = (.error e, t)) :
    ∃ made, made <+: loadCalls request.vars.sources ∧ t = s.made cs made ∧
      (s.cancelled = true → made = []) ∧
      (s.cancelled = false → cs.allReturn s.world (loadCalls request.vars.sources) = true →
        made = loadCalls request.vars.sources) := by
  rw [exec_proceed] at h
  cases hc : s.cancelled with
  | true =>
    rw [if_pos hc] at h
    obtain rfl : s = t := (Prod.mk.inj h).2
    exact ⟨[], List.nil_prefix, (s.made_nil cs).symm, fun _ => rfl, nofun⟩
  | false =>
    rw [if_neg (by simp [hc])] at h
    cases hreturn : cs.allReturn s.world (loadCalls request.vars.sources) with
    | false =>
      obtain ⟨made, hmade, hexec⟩ := exec_interpolated_abandoned cs s.phase.target hreturn
      exact ⟨made, hmade, (Prod.mk.inj (h.symm.trans hexec)).2, nofun, nofun⟩
    | true =>
      have hexec := exec_interpolated cs s.phase.target hreturn
      exact ⟨_, List.prefix_rfl, (Prod.mk.inj (h.symm.trans hexec)).2, nofun, fun _ _ => rfl⟩

/-- A manifest is valid if it can be read and declares the deployment. -/
theorem validManifest_eq_ok_iff {deployment : String} {bytes : ByteArray} {m : Manifest} :
    validManifest deployment bytes = .ok m ↔
      Manifest.parse bytes = .ok m ∧ m.name = deployment := by
  rw [validManifest, bind_eq_ok_iff]
  constructor
  · rintro ⟨m', hparse, h⟩
    rw [Manifest.validateFor] at h
    split at h
    · obtain rfl := Except.ok.inj h
      exact ⟨mapError_eq_ok_iff.1 hparse, ‹_›⟩
    · cases h
  · rintro ⟨hparse, hname⟩
    refine ⟨m, mapError_eq_ok_iff.2 hparse, ?_⟩
    rw [Manifest.validateFor, if_pos hname]
    rfl

/-- Validation makes no call and does not notice a cancellation. -/
theorem exec_validated (deployment : String) (bytes : ByteArray) (s : State σ) :
    (validated deployment bytes).exec s =
      ((validManifest deployment bytes).map fun m => (m, m.releases), s) := by
  cases hp : Manifest.parse bytes with
  | error e => simp [validated, validManifest, hp]
  | ok m =>
    by_cases hn : m.name = deployment <;>
      simp [validated, validManifest, Manifest.validateFor, hp, hn]

/-- The releases that come with a valid manifest are its own. -/
theorem exec_validated_eq_ok_iff {deployment : String} {bytes : ByteArray} {s t : State σ}
    {m : Manifest} {releases : List Release} :
    (validated deployment bytes).exec s = (.ok (m, releases), t) ↔
      validManifest deployment bytes = .ok m ∧ releases = m.releases ∧ t = s := by
  rw [exec_validated, Prod.mk.injEq, map_eq_ok_iff]
  constructor
  · rintro ⟨⟨m', hm, h⟩, rfl⟩
    obtain ⟨rfl, rfl⟩ := Prod.mk.inj h
    exact ⟨hm, rfl, rfl⟩
  · rintro ⟨hm, rfl, rfl⟩
    exact ⟨⟨m, hm, rfl⟩, rfl⟩

/-- The manifest that a run shows, and applies if all goes well. -/
def document (deployment : String) (request : DeployRequest) : Except DeployError Manifest := do
  let bytes ← interpolatedBytes request
  validManifest deployment bytes

/-- There is such a manifest if the sources can be loaded, the placeholders can be replaced, and
the result can be read and declares the deployment. -/
theorem document_eq_ok_iff {deployment : String} {request : DeployRequest} {m : Manifest} :
    document deployment request = .ok m ↔
      ∃ vars text, Program.loadAll request.vars = .ok vars ∧
        interpolate request.manifest vars = .ok text ∧
        Manifest.parse text.toUTF8 = .ok m ∧ m.name = deployment := by
  rw [document, bind_eq_ok_iff]
  constructor
  · rintro ⟨bytes, hbytes, hm⟩
    obtain ⟨vars, text, hvars, htext, rfl⟩ := interpolatedBytes_eq_ok_iff.1 hbytes
    exact ⟨vars, text, hvars, htext, validManifest_eq_ok_iff.1 hm⟩
  · rintro ⟨vars, text, hvars, htext, hm⟩
    exact ⟨text.toUTF8, interpolatedBytes_eq_ok_iff.2 ⟨vars, text, hvars, htext, rfl⟩,
      validManifest_eq_ok_iff.2 hm⟩

/-- A manifest keeps the bytes that it was read from. -/
theorem bytes_of_parse {bytes : ByteArray} {m : Manifest} (h : Manifest.parse bytes = .ok m) :
    m.bytes = bytes := by
  rw [Manifest.parse] at h
  split at h
  · obtain rfl := Except.ok.inj h
    rfl
  · cases h

/-! ## The diff -/

/-- The lines of a diff are all said. -/
theorem exec_sayLines (cs : Collaborators σ) (lines : List DiffLine) (s : State σ) :
    (sayLines cs lines).exec s = (.ok (), s.made cs (lines.map (.say ·.render))) := by
  induction lines generalizing s with
  | nil => simp [sayLines]
  | cons line lines ih => simp [sayLines, ih]

/-- The diff of a manifest is asked for, and its lines are said if it is returned. -/
theorem exec_presentDiff (cs : Collaborators σ) (manifest : ByteArray) (phase : Phase)
    (s : State σ) :
    (presentDiff cs manifest phase).exec s =
      (match (cs.diff manifest s.world).1 with
        | .abandoned => .error (.cancelled phase)
        | .returned (.ok lines) _ => .ok lines.length
        | .returned (.error f) _ => .error (.diffFetch f),
        s.made cs (.diff manifest :: (cs.fetched s.world manifest).map (.say ·.render))) := by
  have hcall : s.made cs [.diff manifest] =
      s.called (.diff manifest) (cs.diff manifest s.world).2 (cs.diff manifest s.world).1.struck :=
    s.made_singleton cs (.diff manifest)
  rw [← List.singleton_append, ← s.made_made, hcall, Collaborators.fetched, presentDiff, exec_bind,
    exec_attempt]
  rcases cs.diff manifest s.world with ⟨(f | lines) | _, w⟩ <;> simp [exec_sayLines]

end Rollout.Deploy
