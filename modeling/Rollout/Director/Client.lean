import Rollout.Director.Answer
import Rollout.Director.Error
import Rollout.Director.Request
import Rollout.Deploy.Request

/-!
# Calls to a director

A call sends one request, and only an answer with a status from 200 to 299 whose body can be read
counts as success. An update and an upload begin a task; the call then asks for the task again and
again until it has ended. `Link` is the way to the director: it uses up part of its state with every
successful answer, so that waiting for a task always comes to an end.
-/

namespace Rollout.Director

/-- A way to a director, acting on a state. -/
structure Link (σ : Type) where
  exchange : Request → σ → Http.Outcome × σ
  /-- A bound on the successful answers that can still come. -/
  left : σ → Nat
  left_lt : ∀ r w a, (exchange r w).1 = .answered a → a.isSuccess = true →
    left (exchange r w).2 < left w

/-- The state of the calls to a director. -/
structure Session (σ : Type) where
  world : σ
  /-- The requests made so far, in order. -/
  requests : List Request := []

/-- What ends a call early. -/
inductive Halt where
  | failed (e : Error)
  | interrupted
deriving DecidableEq, Repr

/-- A call to a director. -/
abbrev CallM (σ : Type) := ExceptT Halt (StateM (Session σ))

variable {σ α : Type}

/-- What the outcome of a request means for a call that reads the body of the answer. -/
def judge (read : String → Option α) : Http.Outcome → Except Halt α
  | .answered a =>
    if a.isSuccess then
      match read a.body with
      | some result => .ok result
      | none => .error (.failed .undecodable)
    else .error (.failed (.status a.status a.body))
  | .failed reason => .error (.failed (.request reason))
  | .interrupted => .error .interrupted

/-- Only a successful answer that can be read makes a call succeed. -/
theorem judge_eq_ok_iff {read : String → Option α} {o : Http.Outcome} {result : α} :
    judge read o = .ok result ↔
      ∃ a, o = .answered a ∧ a.isSuccess = true ∧ read a.body = some result := by
  cases o with
  | answered a =>
    cases ha : a.isSuccess <;> cases hr : read a.body <;> simp [judge, ha, hr]
  | failed reason => simp [judge]
  | interrupted => simp [judge]

/-- Makes a request and reads the body of the answer. -/
def ask (link : Link σ) (r : Request) (read : String → Option α) : CallM σ α :=
  ExceptT.mk fun s =>
    let (outcome, world) := link.exchange r s.world
    (judge read outcome, { world, requests := s.requests ++ [r] })

/-- A request that succeeds has used up part of the state. -/
theorem left_lt_of_ask {link : Link σ} {r : Request} {read : String → Option α} {s t : Session σ}
    {result : α} (h : (ask link r read).run.run s = (.ok result, t)) :
    link.left t.world < link.left s.world := by
  obtain ⟨hj, rfl⟩ := Prod.mk.inj h
  obtain ⟨a, ho, ha, _⟩ := judge_eq_ok_iff.1 hj
  exact link.left_lt r s.world a ho ha

/-- The state of a task. -/
def fetchTask (link : Link σ) (id : Nat) : CallM σ Task := ask link (.task id) Task.ofBody?

/-- Asks for a task until it has ended: the task if it has succeeded, else an error. -/
def waitFor (link : Link σ) (task : Task) (s : Session σ) : Except Halt Task × Session σ :=
  match task.status with
  | .succeeded => (.ok task, s)
  | .failed => (.error (.failed (.taskFailed task.id task.state (task.result.getD ""))), s)
  | .running =>
    match _h : (fetchTask link task.id).run.run s with
    | (.error e, t) => (.error e, t)
    | (.ok task, t) => waitFor link task t
termination_by link.left s.world
decreasing_by exact left_lt_of_ask _h

/-- Makes a request that begins a task and waits for the end of the task. -/
def perform (link : Link σ) (r : Request) : CallM σ Task := do
  let task ← ask link r Task.ofBody?
  ExceptT.mk (waitFor link task)

/-- The lines of the diff between a deployment and a manifest. -/
def diff (link : Link σ) (deployment : String) (manifest : ByteArray) :
    CallM σ (List DiffLine) :=
  ask link (.diff deployment manifest) diffOfBody?

/-- Updates the deployment that a manifest names. -/
def update (link : Link σ) (manifest : ByteArray) (options : UpdateOptions) : CallM σ Task :=
  perform link (.update manifest options)

/-- The releases that the director knows. -/
def releases (link : Link σ) : CallM σ (List KnownRelease) :=
  ask link .releases KnownRelease.listOfBody?

/-- Whether the director knows a release in a version. -/
def hasRelease (link : Link σ) (name version : String) : CallM σ Bool :=
  KnownRelease.has name version <$> releases link

/-- Has the director fetch a release from an address. -/
def uploadRelease (link : Link σ) (url : String) (sha1 : Option String) : CallM σ Task :=
  perform link (.uploadRelease url sha1)

/-- What ends the upload of a release: the messages that stand above the error, and the error. -/
structure UploadHalt where
  context : List String
  halt : Halt
deriving DecidableEq, Repr

/-- Makes sure that the director has a release; it is uploaded only if it is not there. -/
def ensureRelease (link : Link σ) (r : UploadRequest) :
    ExceptT UploadHalt (StateM (Session σ)) UploadOutcome := do
  if ← (hasRelease link r.name r.version.text).adapt (⟨[], ·⟩) then return .alreadyPresent
  let _ ← (uploadRelease link r.url r.sha1).adapt (⟨["Uploading release from " ++ r.url], ·⟩)
  return .uploaded

end Rollout.Director
