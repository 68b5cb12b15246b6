import Rollout.Manifest
import Rollout.Phase
import Rollout.Version

/-!
# Why a run fails

The errors of a deploy run with their texts, and the failures that collaborators report: a message
with the messages below it in the chain of causes.
-/

namespace Rollout

/-- What a collaborator reports when it fails. -/
structure Failure where
  message : String
  causes : List String := []
deriving DecidableEq, Repr

/-- Why a manifest is invalid. -/
inductive ManifestError where
  /-- It cannot be read as a value, so that nothing can be replaced in it. -/
  | unparsable (e : Yaml.ReadError)
  /-- A placeholder inside a text stands for something that is not a scalar. -/
  | notScalar (name : String)
  /-- The value with everything replaced cannot be written. -/
  | unwritable
  /-- Its name or its releases cannot be read. -/
  | unreadable (e : Yaml.ReadError)
deriving Repr

def ManifestError.message : ManifestError → String
  | .unparsable e => "Parsing manifest: " ++ e.message
  | .notScalar name =>
    "Expected variable '" ++ name ++ "' to be a scalar when embedded in a string"
  | .unwritable => "Serializing manifest: " ++ Yaml.libraryText
  | .unreadable e => e.message

/-- Why a deploy run fails. -/
inductive DeployError where
  | missingVariable (name : String)
  | variablesFile (source : String) (reason : Failure)
  | invalidManifest (e : ManifestError)
  | nameMismatch (expected actual : String)
  | versionFormat (e : VersionFormatError)
  | diffFetch (reason : Failure)
  | confirmationRejected (reason : Failure)
  | upload (release : String) (reason : Failure)
  | update (reason : Failure)
  | cancelled (phase : Phase)
deriving Repr

namespace DeployError

/-- The text of an error. Only the outermost message of a failure shows. -/
def message : DeployError → String
  | .missingVariable name =>
    "Expected to find variable '" ++ name ++ "' in the given variable sources"
  | .variablesFile source reason =>
    "Loading variables from '" ++ source ++ "': " ++ reason.message
  | .invalidManifest e => "Invalid manifest: " ++ e.message
  | .nameMismatch expected actual =>
    "Expected manifest to specify deployment name '" ++ expected ++ "' but was '" ++ actual ++ "'"
  | .versionFormat e => e.message
  | .diffFetch reason => "Fetching diff result: " ++ reason.message
  | .confirmationRejected reason => "Confirmation rejected: " ++ reason.message
  | .upload release reason => "Uploading release '" ++ release ++ "': " ++ reason.message
  | .update reason => reason.message
  | .cancelled phase => "Deployment cancelled while " ++ phase.activity

/-- The messages below an error. Only a failed update passes on its own. -/
def causes : DeployError → List String
  | .update reason => reason.causes
  | _ => []

end DeployError

/-- The releases of a manifest that is meant for a deployment. -/
def Manifest.validateFor (m : Manifest) (deployment : String) :
    Except DeployError (List Release) :=
  if m.name = deployment then .ok m.releases else .error (.nameMismatch deployment m.name)

end Rollout
