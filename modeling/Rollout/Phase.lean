/-!
# Phases

The stages of a deploy run. A successful run goes through all phases of `Phase.sequence` in order; a
run that fails is aborted.
-/

namespace Rollout

/-- A stage of a deploy run, named for what has been reached. -/
inductive Phase where
  | start
  | interpolated
  | validated
  | diffed
  | confirmed
  | releasesSynced
  | updated
  | done
  | aborted
deriving DecidableEq, Repr

namespace Phase

/-- The phases of a successful run in order. -/
def sequence : List Phase :=
  [.start, .interpolated, .validated, .diffed, .confirmed, .releasesSynced, .updated, .done]

/-- The identifier of a phase. -/
def id : Phase → String
  | .start => "Start"
  | .interpolated => "Interpolated"
  | .validated => "Validated"
  | .diffed => "Diffed"
  | .confirmed => "Confirmed"
  | .releasesSynced => "ReleasesSynced"
  | .updated => "Updated"
  | .done => "Done"
  | .aborted => "Aborted"

/-- The name of a phase in reports. -/
def name : Phase → String
  | .start => "Start"
  | .interpolated => "Interpolate"
  | .validated => "Validate"
  | .diffed => "Diff"
  | .confirmed => "Confirm"
  | .releasesSynced => "Sync Releases"
  | .updated => "Update"
  | .done => "Done"
  | .aborted => "Aborted"

/-- What a run is doing while it works towards a phase. -/
def activity : Phase → String
  | .start => "starting"
  | .interpolated => "interpolating manifest"
  | .validated => "validating manifest"
  | .diffed => "fetching diff"
  | .confirmed => "waiting for confirmation"
  | .releasesSynced => "uploading releases"
  | .updated => "updating deployment"
  | .done => "finishing"
  | .aborted => "aborting"

/-- The phase after another one in a list. -/
def after (p : Phase) : List Phase → Option Phase
  | a :: b :: ps => if a = p then some b else after p (b :: ps)
  | _ => none

/-- The next phase of a successful run; a terminal phase has none. -/
def next? (p : Phase) : Option Phase := p.after sequence

/-- Whether a run has ended with this phase. -/
def isTerminal (p : Phase) : Bool := p = .done || p = .aborted

/-- The phase that a run in this phase works towards. -/
def target (p : Phase) : Phase := p.next?.getD .aborted

end Phase

end Rollout
