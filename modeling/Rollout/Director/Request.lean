import Rollout.Http.Message
import Rollout.Json.Write
import Rollout.SkipDrain

/-!
# What a director is asked

The requests of the director's interface, with the method, the path and the body of each. Names
inside paths are percent-encoded.
-/

namespace Rollout.Director

/-- A request to a director. -/
inductive Request where
  /-- The diff between a deployment and a manifest. -/
  | diff (deployment : String) (manifest : ByteArray)
  /-- The update of the deployment that a manifest names. -/
  | update (manifest : ByteArray) (options : UpdateOptions)
  /-- The list of releases. -/
  | releases
  /-- The upload of a release from an address. -/
  | uploadRelease (url : String) (sha1 : Option String)
  /-- A task. -/
  | task (id : Nat)
deriving DecidableEq

namespace Request

/-- The method of a request. -/
def method : Request → Http.Method
  | .diff .. | .update .. | .uploadRelease .. => .post
  | .releases | .task _ => .get

/-- The path of a request, with its query, below the address of the director. -/
def path : Request → String
  | .diff deployment _ => "/deployments/" ++ Text.Percent.encode deployment ++ "/diff"
  | .update _ options => options.path
  | .releases | .uploadRelease .. => "/releases"
  | .task id => "/tasks/" ++ .ofList (Nat.toDigits 10 id)

/-- The body of a request. -/
def body : Request → Option Http.Body
  | .diff _ manifest | .update manifest _ => some ⟨"text/yaml", manifest⟩
  | .uploadRelease url sha1 =>
    let members := ("location", url) :: (sha1.map ("sha1", ·)).toList
    some ⟨"application/json", (Json.writeObject members).toUTF8⟩
  | .releases | .task _ => none

end Request

end Rollout.Director
