import Rollout.Bytes

/-!
# Messages

The parts of requests and answers, and what becomes of a request.
-/

namespace Rollout.Http

/-- The method of a request. -/
inductive Method where
  | get
  | post
deriving DecidableEq, Repr

/-- The name of a method. -/
def Method.name : Method → String
  | .get => "GET"
  | .post => "POST"

/-- The body of a request with its type. -/
structure Body where
  contentType : String
  content : ByteArray
deriving DecidableEq

/-- The answer to a request. -/
structure Answer where
  status : Nat
  body : String
deriving DecidableEq, Repr

/-- Whether an answer reports success. -/
def Answer.isSuccess (a : Answer) : Bool := 200 ≤ a.status && a.status ≤ 299

/-- Whether answers with a status have no body, whatever is sent after their headers. -/
def isBodiless (status : Nat) : Bool := status = 204 || status = 304

/-- Why a request has no answer. -/
inductive Failure where
  /-- The address of the request is none that a request can be sent to. -/
  | unusableAddress
  /-- The credentials cannot stand in a header. -/
  | unusableHeader
  /-- The connection was closed before the answer. -/
  | closed (url : String)
  /-- There were too many redirects. -/
  | tooManyRedirects (url : String)
deriving DecidableEq, Repr

/-- The text of a failure. -/
def Failure.message : Failure → String
  | .unusableAddress | .unusableHeader => "builder error"
  | .closed url => "error sending request for url (" ++ url ++ ")"
  | .tooManyRedirects url => "error following redirect for url (" ++ url ++ ")"

/-- The messages below a failure. -/
def Failure.causes : Failure → List String
  | .unusableAddress => ["relative URL without a base"]
  | .unusableHeader => ["failed to parse header value"]
  | .closed _ => ["client error (SendRequest)", "connection closed before message completed"]
  | .tooManyRedirects _ => ["too many redirects"]

/-- What becomes of a request. -/
inductive Outcome where
  | answered (a : Answer)
  | failed (reason : Failure)
  /-- The user has interrupted the program; the answer never comes. -/
  | interrupted
deriving DecidableEq, Repr

end Rollout.Http
