import Rollout.Text.Blank
import Rollout.Text.Split
import Rollout.Text.Percent

/-!
# Update options

Which instance groups skip their drain scripts in an update, and the path with its query that an
update is posted to. A flag without a value, a star and a list without names mean all groups.
-/

namespace Rollout

/-- The instance groups that skip their drain scripts. -/
inductive SkipDrain where
  | disabled
  | all
  | only (groups : List String)
deriving DecidableEq, Repr

namespace SkipDrain

/-- The groups of a list with commas, without blanks around them and without empty names. -/
def groups (text : String) : List String :=
  ((Text.split ',' text).map Text.trim).filter (!·.isEmpty)

/-- The directive of a flag: `none` without the flag, `some none` for the flag alone. -/
def ofFlag : Option (Option String) → SkipDrain
  | none => .disabled
  | some none => .all
  | some (some text) =>
    if text = "*" then .all
    else match groups text with
      | [] => .all
      | g :: gs => .only (g :: gs)

/-- The value of the query parameter that carries a directive. -/
def queryValue? : SkipDrain → Option String
  | .disabled => none
  | .all => some "*"
  | .only groups => some (",".intercalate groups)

end SkipDrain

/-- How a deployment is updated. -/
structure UpdateOptions where
  recreate : Bool := false
  skipDrain : SkipDrain := .disabled
deriving DecidableEq, Repr

namespace UpdateOptions

/-- The same options with machines recreated or not. -/
def withRecreate (o : UpdateOptions) (recreate : Bool) : UpdateOptions := { o with recreate }

/-- The same options with another drain directive. -/
def withSkipDrain (o : UpdateOptions) (skipDrain : SkipDrain) : UpdateOptions :=
  { o with skipDrain }

/-- The parameters of the query, in order. -/
def parameters (o : UpdateOptions) : List (String × String) :=
  (if o.recreate then [("recreate", "true")] else []) ++
    (o.skipDrain.queryValue?.map ("skip_drain", ·)).toList

/-- The path that an update is posted to, with its query. -/
def path (o : UpdateOptions) : String :=
  match o.parameters with
  | [] => "/deployments"
  | ps => "/deployments?" ++
      "&".intercalate (ps.map fun (name, value) => name ++ "=" ++ Text.Percent.encode value)

end UpdateOptions

end Rollout
