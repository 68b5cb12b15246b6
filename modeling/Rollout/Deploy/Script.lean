import Rollout.Deploy.Run

/-!
# Scripted collaborators

Collaborators whose answers are all given in advance, with a point at which the run is cancelled.
The cancellation strikes inside a call, after it is recorded; the call then either never returns or
goes on to its scripted answer. Something that is said is said in any case.
-/

namespace Rollout.Deploy

/-- When a run is cancelled: before it begins, or inside a call. Sources, texts and uploads are
counted from the beginning of the run. -/
inductive CancelPoint where
  | start
  | load (index : Nat)
  | say (index : Nat)
  | diff
  | confirm
  | upload (index : Nat)
  | update
deriving DecidableEq, Repr

/-- A cancellation. With `stall` the call that it strikes never returns. -/
structure Cancellation where
  point : CancelPoint
  stall : Bool
deriving DecidableEq, Repr

/-- The answers of the collaborators. -/
structure Script where
  deployment : String
  diff : Except Failure (List DiffLine) := .ok []
  confirmation : Except Failure Unit := .ok ()
  /-- The answers of the uploads in order; further uploads succeed. -/
  uploads : List (Except Failure UploadOutcome) := []
  update : Except Failure Unit := .ok ()
  cancellation : Option Cancellation := none

namespace Script

/-- Whether the run is cancelled at a point. -/
def strikes (s : Script) (point : CancelPoint) : Bool := s.cancellation.any (·.point = point)

/-- The reply of the call at a point with the given answer. -/
def reply {α : Type} (s : Script) (point : CancelPoint) (result : α) : Reply α :=
  if s.strikes point && s.cancellation.any (·.stall) then .abandoned
  else .returned result (s.strikes point)

/-- How many sources have been loaded, texts said and releases uploaded. -/
structure Turn where
  loads : Nat := 0
  texts : Nat := 0
  uploads : Nat := 0
deriving DecidableEq, Repr

/-- The collaborators of a script. -/
def collaborators (s : Script) : Collaborators Turn where
  deployment := s.deployment
  load _ n := (s.reply (.load n.loads) (), { n with loads := n.loads + 1 })
  say _ n := (s.strikes (.say n.texts), { n with texts := n.texts + 1 })
  diff _ n := (s.reply .diff s.diff, n)
  confirm n := (s.reply .confirm s.confirmation, n)
  upload _ n := (s.reply (.upload n.uploads) ((s.uploads[n.uploads]?).getD (.ok .uploaded)),
    { n with uploads := n.uploads + 1 })
  update _ n := (s.reply .update s.update, n)

/-- The state before a run. -/
def initial (s : Script) : State Turn := { world := {}, cancelled := s.strikes .start }

/-- A run with scripted collaborators. -/
def run (s : Script) (request : DeployRequest) : Except DeployError DeployReport × List Call :=
  let (result, final) := execute s.collaborators request s.initial
  (result, final.calls)

/-- The synchronisation of some releases alone. -/
def runSync (s : Script) (releases : List Release) :
    Except DeployError SyncSummary × List Call :=
  let (result, final) := (sync s.collaborators releases).run.run s.initial
  (result, final.calls)

/-- The presentation of a diff alone. -/
def runDiff (s : Script) (manifest : ByteArray) : Except DeployError Nat × List Call :=
  let (result, final) := (presentDiff s.collaborators manifest .diffed).run.run s.initial
  (result, final.calls)

end Script

end Rollout.Deploy
