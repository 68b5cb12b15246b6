import Rollout.Failure
import Rollout.Substitution
import Rollout.Variable.Lookup
import Rollout.Yaml.Value.Write

/-!
# Interpolation of manifests

A manifest is read as a value, its placeholders are replaced, and the result is written again in
canonical form.
-/

namespace Rollout

/-- The error of a run for a placeholder that cannot be replaced. -/
def SubstitutionError.toDeployError : SubstitutionError → DeployError
  | .missing name => .missingVariable name
  | .notScalar name => .invalidManifest (.notScalar name)

/-- The value of a manifest with everything replaced. -/
def evaluateManifest (manifest : ByteArray) (lookup : String → Option Yaml.Value) :
    Except DeployError Yaml.Value := do
  let document ← (Yaml.Reader.value.readBytes manifest).mapError
    (DeployError.invalidManifest <| .unparsable ·)
  (Substitution.evaluate lookup document).mapError SubstitutionError.toDeployError

/-- The text of a manifest with everything replaced. -/
def interpolate (manifest : ByteArray) (vars : Variables) : Except DeployError String := do
  let value ← evaluateManifest manifest vars.value?
  match value.write? with
  | some text => .ok text
  | none => .error (.invalidManifest .unwritable)

end Rollout
