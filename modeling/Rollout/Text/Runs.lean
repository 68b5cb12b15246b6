/-!
# Runs of characters

A set of characters is kept as the lengths of its runs, in turn outside and inside of the set.
-/

namespace Rollout.Text

/-- Whether the character that is `n` places into the runs lies inside of the set. -/
def inRun (n : Nat) : List Nat → Bool
  | outside :: inside :: runs =>
    if n < outside then false
    else if n < outside + inside then true
    else inRun (n - (outside + inside)) runs
  | _ => false

end Rollout.Text
