import Rollout.Diff
import Rollout.Json.Record

/-!
# What a director answers

Tasks, lists of releases and diffs as they stand in the bodies of answers.
-/

namespace Rollout.Director

open Json

/-- A task of a director. -/
structure Task where
  id : Nat
  state : String
  description : String := ""
  result : Option String := none
deriving DecidableEq, Repr

/-- How far a task has come. -/
inductive TaskStatus where
  | running
  | succeeded
  | failed
deriving DecidableEq, Repr

namespace Task

/-- How far a task has come by its state: a state that is not known is that of a running task. -/
def status (t : Task) : TaskStatus :=
  if t.state = "done" then .succeeded
  else if t.state = "error" ∨ t.state = "cancelled" ∨ t.state = "timeout" then .failed
  else .running

/-- The task that a value stands for. -/
def ofJson? (v : Value) : Option Task := do
  let [some id, some state, description, result] ←
    v.fields? ["id", "state", "description", "result"] | none
  let id ← id.natural?
  let state ← state.text?
  let description ← Value.fieldOr "" Value.text? description
  let result ← Value.fieldOr none Value.optionalText? result
  return ⟨id, state, description, result⟩

/-- The task in a body. -/
def ofBody? (body : String) : Option Task := do ofJson? (← Value.ofText? body)

end Task

/-- A release that a director knows, with its versions. -/
structure KnownRelease where
  name : String
  versions : List String
deriving DecidableEq, Repr

namespace KnownRelease

/-- The version that a value stands for. -/
def versionOfJson? (v : Value) : Option String := do
  let [some version] ← v.fields? ["version"] | none
  version.text?

/-- The release that a value stands for. -/
def ofJson? (v : Value) : Option KnownRelease := do
  let [some name, versions] ← v.fields? ["name", "release_versions"] | none
  let name ← name.text?
  let versions ← Value.fieldOr [] (Value.items? versionOfJson?) versions
  return ⟨name, versions⟩

/-- The releases in a body. -/
def listOfBody? (body : String) : Option (List KnownRelease) := do
  Value.items? ofJson? (← Value.ofText? body)

/-- Whether a list of releases holds one with the given name and version. -/
def has (name version : String) (releases : List KnownRelease) : Bool :=
  releases.any fun r => r.name = name && r.versions.contains version

end KnownRelease

/-- The line of a diff that a value stands for: a text and a marker or null. -/
def diffLineOfJson? : Value → Option DiffLine
  | .array [text, marker] => do
    let text ← text.text?
    let marker ← marker.optionalText?
    return ⟨text, .ofMarker marker⟩
  | _ => none

/-- The lines of the diff in a body. -/
def diffOfBody? (body : String) : Option (List DiffLine) := do
  let [lines] ← (← Value.ofText? body).fields? ["diff"] | none
  Value.fieldOr [] (Value.items? diffLineOfJson?) lines

end Rollout.Director
