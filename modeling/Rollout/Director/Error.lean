import Rollout.Failure
import Rollout.Http.Message

/-!
# Why a director call fails

A call fails because its request could not be sent or answered, because the answer reports a
failure, because its body cannot be read, or because the task that it began has failed.
-/

namespace Rollout.Director

/-- Why a call to a director fails. -/
inductive Error where
  | request (reason : Http.Failure)
  | status (code : Nat) (body : String)
  | taskFailed (id : Nat) (state result : String)
  | undecodable
deriving DecidableEq, Repr

namespace Error

/-- The text of an error. -/
def message : Error → String
  | .request reason => "Director request failed: " ++ reason.message
  | .status code body =>
    "Director responded with status " ++ .ofList (Nat.toDigits 10 code) ++ ": " ++ body
  | .taskFailed id state result =>
    "Director task " ++ .ofList (Nat.toDigits 10 id) ++ " finished in state '" ++ state ++ "': " ++
      result
  | .undecodable => "Failed to decode director response: error decoding response body"

/-- The messages below an error. -/
def causes : Error → List String
  | .request reason => reason.message :: reason.causes
  | _ => []

/-- An error as the failure of a collaborator. -/
def toFailure (e : Error) : Failure := ⟨e.message, e.causes⟩

end Error

end Rollout.Director
