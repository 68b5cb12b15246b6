import Rollout.Deploy.Run
import Rollout.Director.Client
import Rollout.Terminal

/-!
# Runs against a director

The collaborators of a run that talks to a director and to a user at a terminal. The user may
interrupt the program during any call, and the run is cancelled then. Whether a call to the director
is abandoned, because the interrupt comes before the answer, is up to the way to the director.
-/

namespace Rollout.Deploy

/-- What such a run works with: the terminal and the calls to the director. -/
structure Desk (σ : Type) where
  terminal : Terminal
  session : Director.Session σ

namespace Desk

variable {σ α : Type}

/-- How a call goes on that only the user can disturb. -/
def wait (d : Desk σ) : Reply Unit × Desk σ :=
  let reply : Reply Unit := match d.terminal.patience.headD .waits with
    | .waits => .returned () false
    | .interruptsLate => .returned () true
    | .interrupts => .abandoned
  (reply, { d with terminal := { d.terminal with patience := d.terminal.patience.tail } })

/-- What the end of a call means for a run. A call without an answer is abandoned. -/
def reply (cancelled : Bool) : Except Director.Halt α → Reply (Except Failure α)
  | .ok a => .returned (.ok a) cancelled
  | .error (.failed e) => .returned (.error e.toFailure) cancelled
  | .error .interrupted => .abandoned

/-- What the end of an upload means for a run: the context of the error stands above it. -/
def uploadReply (cancelled : Bool) : Except Director.UploadHalt α → Reply (Except Failure α)
  | .ok a => .returned (.ok a) cancelled
  | .error ⟨context, .failed e⟩ =>
    .returned (.error <| match context with
      | [] => e.toFailure
      | c :: cs => ⟨c, cs ++ e.message :: e.causes⟩) cancelled
  | .error ⟨_, .interrupted⟩ => .abandoned

/-- Makes a call to the director. -/
def call (m : Director.CallM σ α) (d : Desk σ) : Reply (Except Failure α) × Desk σ :=
  let (wait, d) := d.wait
  let (result, session) := m.run.run d.session
  (reply wait.struck result, { d with session })

/-- Has a release uploaded. -/
def upload (link : Director.Link σ) (r : UploadRequest) (d : Desk σ) :
    Reply (Except Failure UploadOutcome) × Desk σ :=
  let (wait, d) := d.wait
  let (result, session) := (Director.ensureRelease link r).run.run d.session
  (uploadReply wait.struck result, { d with session })

/-- Says something to the user. -/
def say (text : String) (d : Desk σ) : Bool × Desk σ :=
  let (wait, d) := d.wait
  (wait.struck, { d with terminal := d.terminal.say text })

/-- Asks the user. A question that counts as confirmed does not wait for the user. -/
def confirm (d : Desk σ) : Reply (Except Failure Unit) × Desk σ :=
  let (wait, d) := d.wait
  if wait = .abandoned ∧ !d.terminal.nonInteractive then
    (.abandoned, { d with terminal := d.terminal.prompt })
  else
    let (result, terminal) := d.terminal.ask
    (.returned (result.mapError (⟨·.message, []⟩)) wait.struck, { d with terminal })

/-- The collaborators: the director keeps the deployment and the releases, and the user at the
terminal reads and confirms. -/
def collaborators (link : Director.Link σ) (deployment : String) : Collaborators (Desk σ) where
  deployment
  load _ d := d.wait
  say
  diff manifest := call (Director.diff link deployment manifest)
  confirm
  upload := upload link
  update r := call (discard <| Director.update link r.manifest r.options)

end Desk

end Rollout.Deploy
