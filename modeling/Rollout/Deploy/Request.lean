import Rollout.Bytes
import Rollout.Diff
import Rollout.Failure
import Rollout.SkipDrain
import Rollout.Variable.Lookup

/-!
# What a run asks and hears

The requests that a deploy run makes of its collaborators, their answers, and the report of a
successful run.
-/

namespace Rollout

/-- A release to be made available to the director. -/
structure UploadRequest where
  name : String
  url : String
  sha1 : Option String
  version : Version
deriving DecidableEq, Repr

/-- The upload that a release needs: none without an address. -/
def Release.uploadRequest? (r : Release) : Except VersionFormatError (Option UploadRequest) :=
  match r.sourceUrl? with
  | none => .ok none
  | some url => do
    let version ← Version.parse r.version
    return some ⟨r.name, url, r.sha1, version⟩

/-- What an upload came to. -/
inductive UploadOutcome where
  | uploaded
  | alreadyPresent
deriving DecidableEq, Repr

/-- The final update of a deployment. -/
structure UpdateRequest where
  manifest : ByteArray
  options : UpdateOptions
deriving DecidableEq

/-- A call that a run makes of its collaborators. -/
inductive Call where
  | load (source : String)
  | say (text : String)
  | diff (manifest : ByteArray)
  | confirm
  | upload (request : UploadRequest)
  | update (request : UpdateRequest)
deriving DecidableEq

/-- How a call ends: it returns, perhaps after the run was cancelled while it went on, or it is
abandoned because the run was cancelled and it did not return. -/
inductive Reply (α : Type) where
  | returned (result : α) (cancelled : Bool)
  | abandoned
deriving DecidableEq, Repr

/-- Whether the run was cancelled while a call with this reply went on. -/
def Reply.struck {α : Type} : Reply α → Bool
  | .returned _ cancelled => cancelled
  | .abandoned => true

/-- A source of variables with what it gives when it is loaded. -/
structure VariableSource where
  name : String
  content : Except Failure Yaml.Entries

/-- The variables of a run before the sources are loaded. -/
structure VariableSet where
  pairs : List Binding
  sources : List VariableSource

section Resolve

variable {m : Type → Type} [Monad m] [MonadExceptOf DeployError m]
  (load : VariableSource → m (Except Failure Yaml.Entries))

/-- The variables of a source. -/
def VariableSource.file (source : VariableSource) : m VariableFile := do
  match ← load source with
  | .ok entries => return ⟨source.name, entries⟩
  | .error reason => throw (.variablesFile source.name reason)

/-- Loads the sources of a set one after the other, in the order given. The first one that cannot be
loaded ends it. -/
def VariableSet.resolve (vs : VariableSet) : m Variables := do
  let files ← vs.sources.mapM (·.file load)
  return ⟨vs.pairs, files⟩

end Resolve

def VariableSet.isEmpty (vs : VariableSet) : Bool := vs.pairs.isEmpty && vs.sources.isEmpty

/-- What a run is asked to do. -/
structure DeployRequest where
  manifest : ByteArray
  vars : VariableSet
  options : UpdateOptions

/-- What became of the releases of a manifest. -/
structure SyncSummary where
  /-- The releases handed to the uploader with what it did. -/
  uploads : List (String × UploadOutcome) := []
  /-- The releases without an address. -/
  skipped : List String := []
deriving DecidableEq, Repr

/-- The report of a run. -/
structure DeployReport where
  deployment : String
  phase : Phase
  /-- The phases reached, in order. -/
  steps : List Phase
  uploads : List (String × UploadOutcome)
  skipped : List String
deriving DecidableEq, Repr

/-- How many releases were uploaded in fact. -/
def DeployReport.uploadedCount (r : DeployReport) : Nat :=
  r.uploads.countP (·.2 = .uploaded)

end Rollout
