import Rollout.Deploy.Request
import Rollout.Interpolation

/-!
# Deploy runs

A run interpolates a manifest, validates it, shows the diff, asks for confirmation, hands the
releases to the uploader one at a time, and updates the deployment. Each step is taken only after
the one before has succeeded; the first failure ends the run, and nothing is undone. A run that has
been cancelled takes no further step, and a step in which it is cancelled goes on only as far as the
calls in it return.

The collaborators act on a state of any type, so that one definition of a run serves scripted
collaborators and a director alike. Every call is recorded before it is made.
-/

namespace Rollout

/-- The collaborators of a run. -/
structure Collaborators (σ : Type) where
  /-- The name of the deployment that the store holds. -/
  deployment : String
  /-- How the loading of a source goes. What it gives is up to the source. -/
  load : String → σ → Reply Unit × σ
  /-- Shows a text. This cannot be abandoned, but the run may be cancelled meanwhile. -/
  say : String → σ → Bool × σ
  diff : ByteArray → σ → Reply (Except Failure (List DiffLine)) × σ
  confirm : σ → Reply (Except Failure Unit) × σ
  upload : UploadRequest → σ → Reply (Except Failure UploadOutcome) × σ
  update : UpdateRequest → σ → Reply (Except Failure Unit) × σ

namespace Deploy

/-- The state of a run. -/
structure State (σ : Type) where
  world : σ
  /-- The calls made so far, in order. -/
  calls : List Call := []
  cancelled : Bool := false
  phase : Phase := .start
  /-- The phases reached so far, in order. -/
  steps : List Phase := []

/-- A part of a run: it may end the run with an error. -/
abbrev RunM (σ : Type) := ExceptT DeployError (StateM (State σ))

variable {σ α : Type}

/-- Records a call. -/
def record (c : Call) : RunM σ Unit := modify fun s => { s with calls := s.calls ++ [c] }

/-- The phase that the run works towards. -/
def target : RunM σ Phase := return (← get).phase.target

/-- Enters the next phase. -/
def advance : RunM σ Unit :=
  modify fun s => { s with phase := s.phase.target, steps := s.steps ++ [s.phase.target] }

/-- Ends the run if it has been cancelled. -/
def checkpoint (phase : Phase) : RunM σ Unit := do
  if (← get).cancelled then throw (.cancelled phase)

/-- Waits for the end of a call. If it is abandoned, the run ends on the way to `phase`. -/
def awaited (c : Call) (call : σ → Reply α × σ) (phase : Phase) : RunM σ α := do
  record c
  let (reply, world) := call (← get).world
  modify fun s => { s with world, cancelled := s.cancelled || reply.struck }
  match reply with
  | .abandoned => throw (.cancelled phase)
  | .returned result _ => return result

/-- Waits for the end of a call that may fail. The result of a call that returns counts, also if
the run was cancelled during the call. -/
def attempt (c : Call) (failed : Failure → DeployError)
    (call : σ → Reply (Except Failure α) × σ) (phase : Phase) : RunM σ α := do
  match ← awaited c call phase with
  | .ok a => return a
  | .error f => throw (failed f)

/-- Takes a step on the way to `phase`, unless the run has been cancelled. -/
def cancellable (phase : Phase) (step : Phase → RunM σ α) : RunM σ α := do
  checkpoint phase
  step phase

/-- Takes a step on the way to the next phase, unless the run has been cancelled. -/
def proceed (step : Phase → RunM σ α) : RunM σ α := do
  cancellable (← target) step

/-- Shows a text to the user. -/
def say (cs : Collaborators σ) (text : String) : RunM σ Unit := do
  record (.say text)
  let (cancelled, world) := cs.say text (← get).world
  modify fun s => { s with world, cancelled := s.cancelled || cancelled }

/-- Loads a source of variables. -/
def load (cs : Collaborators σ) (phase : Phase) (source : VariableSource) :
    RunM σ (Except Failure Yaml.Entries) := do
  awaited (.load source.name) (cs.load source.name) phase
  return source.content

/-- The interpolated manifest. The loading of the sources is raced with the cancellation, and what
comes after it is not. -/
def interpolated (cs : Collaborators σ) (request : DeployRequest) (phase : Phase) :
    RunM σ ByteArray := do
  let vars ← request.vars.resolve (load cs phase)
  match interpolate request.manifest vars with
  | .ok text => return text.toUTF8
  | .error e => throw e

/-- The manifest that some bytes spell out and its releases, if it declares the deployment. -/
def validated (deployment : String) (bytes : ByteArray) :
    RunM σ (Manifest × List Release) := do
  match Manifest.parse bytes with
  | .error e => throw (.invalidManifest (.unreadable e))
  | .ok m =>
    match m.validateFor deployment with
    | .error e => throw e
    | .ok releases => return (m, releases)

/-- Says the lines of a diff, one by one. -/
def sayLines (cs : Collaborators σ) : List DiffLine → RunM σ Unit
  | [] => return ()
  | line :: lines => do
    say cs line.render
    sayLines cs lines

/-- Fetches the diff of a manifest and shows it; nothing is shown unless all of it was fetched.
Gives the number of lines. -/
def presentDiff (cs : Collaborators σ) (manifest : ByteArray) (phase : Phase) : RunM σ Nat := do
  let lines ← attempt (.diff manifest) .diffFetch (cs.diff manifest) phase
  sayLines cs lines
  return lines.length

/-- Hands the releases that have an address to the uploader, in order. -/
def sync (cs : Collaborators σ) : List Release → RunM σ SyncSummary
  | [] => return {}
  | r :: rs =>
    match r.uploadRequest? with
    | .error e => throw (.versionFormat e)
    | .ok none => do
      let summary ← sync cs rs
      return { summary with skipped := r.name :: summary.skipped }
    | .ok (some request) => do
      let outcome ← cancellable .releasesSynced
        (attempt (.upload request) (.upload request.name) (cs.upload request))
      let summary ← sync cs rs
      return { summary with uploads := (request.name, outcome) :: summary.uploads }

/-- The first thing that is said in a run. -/
def banner (deployment : String) : String := "Using deployment '" ++ deployment ++ "'\n"

/-- All steps of a run. -/
def steps (cs : Collaborators σ) (request : DeployRequest) : RunM σ SyncSummary := do
  let bytes ← proceed (interpolated cs request)
  advance
  let (manifest, releases) ← validated cs.deployment bytes
  advance
  say cs (banner cs.deployment)
  let _ ← proceed (presentDiff cs manifest.bytes)
  advance
  proceed (attempt .confirm .confirmationRejected cs.confirm)
  advance
  let summary ← sync cs releases
  advance
  let update : UpdateRequest := ⟨manifest.bytes, request.options⟩
  proceed (attempt (.update update) .update (cs.update update))
  advance
  return summary

/-- A whole run: its report or its error, and the state that it leaves. -/
def execute (cs : Collaborators σ) (request : DeployRequest) (start : State σ) :
    Except DeployError DeployReport × State σ :=
  match (steps cs request).run.run start with
  | (.error e, s) => (.error e, { s with phase := .aborted })
  | (.ok summary, s) =>
    let phase := s.phase.target
    let steps := s.steps ++ [phase]
    (.ok ⟨cs.deployment, phase, steps, summary.uploads, summary.skipped⟩, { s with phase, steps })

end Deploy

end Rollout
