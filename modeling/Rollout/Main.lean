import Rollout.Program.Run

/-!
# The executable

Collects what a run of the program needs, runs it, and writes what it leaves behind. The executable
has no network: every connection to a director is closed at once, so that no run comes to the
question whose answer would have to be read.
-/

open Rollout

/-- The variables that the program looks at. -/
def variableNames : List String :=
  ["HOME", "CLICOLOR_FORCE", "DEPLOYCTL_CONFIG", "DEPLOYCTL_DEPLOYMENT", "DIRECTOR_URL",
    "DIRECTOR_TOKEN", "DIRECTOR_USERNAME", "DIRECTOR_PASSWORD"]

/-- The content of a file, if it can be read. -/
def readFile? (path : String) : IO (Option ByteArray) := do
  try
    return some (← IO.FS.readBinFile path)
  catch _ => return none

def main (args : List String) : IO UInt32 := do
  let vars ← variableNames.mapM fun name => do return (name, ← IO.getEnv name)
  let environment : Environment := fun name => (vars.lookup name).join
  let files ← (Program.paths args environment).mapM fun path => do return (path, ← readFile? path)
  let result := Program.run args
    { environment, files := fun path => (files.lookup path).join, input := .empty,
      director := ⟨[.close], []⟩ }
  IO.print result.output
  IO.eprint result.errors
  return result.status.toUInt32
