import Rollout.CommandLine
import Rollout.Deploy.Desk
import Rollout.Director.Connection
import Rollout.Interpolation

/-!
# The commands

What the commands of the program do with a manifest that has been read and with the variables that
were asked for.
-/

namespace Rollout.Program

/-- Why a command fails. -/
inductive CommandError where
  /-- The file of the manifest is not there. -/
  | manifestNotFound (path : String)
  | config (e : ConfigError)
  | deploy (e : DeployError)
deriving Repr

namespace CommandError

/-- The text of an error. -/
def message : CommandError → String
  | .manifestNotFound path => "Failed to read manifest " ++ path
  | .config e => e.message
  | .deploy e => e.message

/-- The messages below an error. -/
def causes : CommandError → List String
  | .manifestNotFound _ => ["No such file or directory (os error 2)"]
  | .config _ => []
  | .deploy e => e.causes

end CommandError

/-- A file with its path; there is no content if it cannot be read. -/
structure File where
  path : String
  content : Option ByteArray

/-- The bytes of the file of a manifest. -/
def File.manifest (f : File) : Except CommandError ByteArray :=
  match f.content with
  | some bytes => .ok bytes
  | none => .error (.manifestNotFound f.path)

/-- The variables of a file as a source. -/
def File.source (f : File) : VariableSource :=
  ⟨f.path, (variablesOfFile f.path f.content).mapError (⟨·.message, []⟩)⟩

/-- The variables that the command line asks for. -/
def variableSet (v : CommandLine.VariableArguments) (files : String → Option ByteArray) :
    VariableSet :=
  ⟨v.pairs, v.files.map fun path => File.source ⟨path, files path⟩⟩

/-- The variables of a set, if all its sources can be loaded. -/
def loadAll (vs : VariableSet) : Except DeployError Variables :=
  vs.resolve fun source => return source.content

/-- Interpolates a manifest: the text to be printed. -/
def interpolateFile (manifest : File) (vars : VariableSet) : Except CommandError String := do
  let bytes ← manifest.manifest
  let resolved ← (loadAll vars).mapError .deploy
  (Rollout.interpolate bytes resolved).mapError .deploy

/-- The time that a step took. Times are no part of a run, so that their figures are left open. -/
def stepTime : String := "(N.Ns)"

/-- A release that was handed to the director, with what became of it. -/
def uploadLine (t : Terminal) (name : String) (outcome : UploadOutcome) : String :=
  let status := match outcome with
    | .uploaded => t.paint .green "uploaded"
    | .alreadyPresent => t.paint .dimmed "already present"
  "   📦 " ++ t.paint .cyan name ++ " " ++ status

/-- Shows what became of the releases, if there are any. -/
def showReleases (r : DeployReport) (t : Terminal) : Terminal :=
  if r.uploads.isEmpty && r.skipped.isEmpty then t
  else
    let t := r.uploads.foldl (fun t (name, outcome) => t.writeLine (uploadLine t name outcome))
      (t.writeLine "")
    r.skipped.foldl (fun t name =>
      t.showInfo ("Release '" ++ name ++ "' has no url, not uploaded")) t

/-- Shows the report of a successful run. -/
def showReport (r : DeployReport) (t : Terminal) : Terminal :=
  let t := (t.writeLine "").writeLine (t.paint .brightBlue Terminal.rule)
  let t := (t.showSuccess ("Deployment '" ++ r.deployment ++ "' updated")).writeLine ""
  let t := r.steps.foldl (fun t p => t.writeLine ("   ✅ " ++ p.name ++ " " ++ stepTime)) t
  (showReleases r t).writeLine ""

/-- What a deploy run is asked to do. -/
structure DeployTask where
  config : Config
  manifest : File
  deployment : String
  vars : VariableSet
  options : UpdateOptions

/-- Runs against a connected director and reports on the terminal. -/
def deployVia {σ : Type} (link : Director.Link σ) (task : DeployTask) (manifest : ByteArray)
    (d : Deploy.Desk σ) : Except DeployError DeployReport × Deploy.Desk σ :=
  let (result, final) := Deploy.execute (Deploy.Desk.collaborators link task.deployment)
    ⟨manifest, task.vars, task.options⟩ { world := d }
  let d := final.world
  match result with
  | .ok report => (.ok report, { d with terminal := showReport report d.terminal })
  | .error e =>
    (.error e, { d with
      terminal := d.terminal.showError ("Deploy of '" ++ task.deployment ++ "' failed") })

/-- Deploys a manifest: the title is shown, then the manifest is read, then the director is
looked up in the configuration, and only then the run begins. -/
def deployFile (task : DeployTask) (terminal : Terminal) (wire : Http.Wire) :
    Except CommandError Unit × Terminal × Http.Wire :=
  let terminal := terminal.showHeader ("Deploy: " ++ task.deployment)
  match task.manifest.manifest with
  | .error e => (.error e, terminal, wire)
  | .ok manifest =>
    match Director.Connection.ofConfig task.config.director with
    | .error e => (.error (.config e), terminal, wire)
    | .ok connection =>
      let (result, d) := deployVia connection.link task manifest
        ⟨{ terminal with nonInteractive := task.config.nonInteractive }, { world := wire }⟩
      ((discard result).mapError .deploy, d.terminal, d.session.world)

end Rollout.Program
