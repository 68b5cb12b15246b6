/-!
# Diffs

The lines of a diff between the live deployment and a manifest, and how they are shown: every line
behind the sign of its change, with a line feed after it.
-/

namespace Rollout

/-- How a line changes. -/
inductive Change where
  | unchanged
  | added
  | removed
deriving DecidableEq, Repr

namespace Change

/-- The change that a marker names; a marker that is not known names none. -/
def ofMarker : Option String → Change
  | some "added" => .added
  | some "removed" => .removed
  | _ => .unchanged

/-- The sign in front of a line. -/
def sign : Change → String
  | .unchanged => "  "
  | .added => "+ "
  | .removed => "- "

end Change

/-- A line of a diff. -/
structure DiffLine where
  text : String
  change : Change
deriving DecidableEq, Repr

/-- A line as it is shown. -/
def DiffLine.render (l : DiffLine) : String := l.change.sign ++ l.text ++ "\n"

end Rollout
