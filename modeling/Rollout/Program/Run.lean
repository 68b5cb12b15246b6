import Rollout.CommandLine.Help
import Rollout.CommandLine.Parse
import Rollout.Program.Command

/-!
# The program

A whole run of the program, from its arguments to its exit status. What it needs of the world is
given in advance: the environment, the files, the input and the director.
-/

namespace Rollout.Program

/-- What the program finds when it is started. -/
structure World where
  environment : Environment
  /-- The content of the files that can be read. -/
  files : String → Option ByteArray
  input : ByteArray
  director : Http.Wire

/-- What a run of the program leaves behind. -/
structure Result where
  status : Nat
  output : String
  errors : String
  director : Http.Wire

/-- Whether the environment asks for colours. Neither stream is taken for a terminal, so that
colours are shown only if they are forced. -/
def colorForced (env : Environment) : Bool := (env "CLICOLOR_FORCE").any (· ≠ "0")

/-- One cause below an error, indented; the lines of several causes stand behind their numbers. -/
def causeText (number : Option Nat) (cause : String) : String :=
  let (first, further) := match number with
    | none => ("    ", "\n    ")
    | some n =>
      let digits := String.ofList (Nat.toDigits 10 n)
      (Terminal.padTo (5 - digits.length) "" ++ digits ++ ": ", "\n       ")
  first ++ further.intercalate (Text.split '\n' cause)

/-- An error with everything below it. -/
def errorText (message : String) (causes : List String) : String :=
  "Error: " ++ message ++
    match causes with
    | [] => "\n"
    | [cause] => "\n\nCaused by:\n" ++ causeText none cause ++ "\n"
    | causes => "\n\nCaused by:\n" ++
        "\n".intercalate (causes.zipIdx.map fun (c, n) => causeText (some n) c) ++ "\n"

/-- What an invocation does. -/
def perform (i : CommandLine.Invocation) (w : World) :
    Except CommandError Unit × Terminal × Http.Wire :=
  let terminal : Terminal := { color := colorForced w.environment, input := w.input.data.toList }
  match i.command with
  | .interpolate manifest vars =>
    match interpolateFile ⟨manifest, w.files manifest⟩ (variableSet vars w.files) with
    | .ok text => (.ok (), terminal.write text, w.director)
    | .error e => (.error e, terminal, w.director)
  | .deploy manifest deployment vars options nonInteractive =>
    match Config.load i.config w.files w.environment with
    | .error e => (.error (.config e), terminal, w.director)
    | .ok config =>
      let config := config.withFlags i.director nonInteractive
      deployFile ⟨config, ⟨manifest, w.files manifest⟩, deployment, variableSet vars w.files,
        options⟩ terminal w.director

/-- A run of the program with the given arguments. -/
def run (args : List String) (w : World) : Result :=
  match CommandLine.parse args w.environment with
  | .error refusal =>
    if refusal.isAnswer then ⟨0, refusal.text, "", w.director⟩
    else ⟨2, "", refusal.text, w.director⟩
  | .ok i =>
    match perform i w with
    | (.ok _, t, wire) => ⟨0, t.output, t.errors, wire⟩
    | (.error e, t, wire) => ⟨1, t.output, t.errors ++ errorText e.message e.causes, wire⟩

/-- The files that a run with the given arguments may read. -/
def paths (args : List String) (env : Environment) : List String :=
  match CommandLine.parse args env with
  | .error _ => []
  | .ok i =>
    let config := i.config.or ((env "HOME").map Config.defaultPath)
    match i.command with
    | .interpolate manifest vars => manifest :: vars.files
    | .deploy manifest _ vars _ _ => manifest :: (vars.files ++ config.toList)

end Rollout.Program
