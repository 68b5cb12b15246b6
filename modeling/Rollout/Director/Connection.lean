import Rollout.Config
import Rollout.Director.Client
import Rollout.Http.Wire
import Rollout.Text.Base64

/-!
# Connections to a director

The address and the credentials that every request to a director carries.
-/

namespace Rollout.Director

/-- How the client proves who it is. -/
inductive Credentials where
  | anonymous
  | bearer (token : String)
  | basic (username password : String)
deriving DecidableEq, Repr

namespace Credentials

/-- The value of the header that carries the credentials. -/
def header? : Credentials → Option String
  | .anonymous => none
  | .bearer token => some ("Bearer " ++ token)
  | .basic username password =>
    let octets := Text.Percent.octets (username ++ ":" ++ password)
    some ("Basic " ++ .ofList (Text.Base64.encode octets))

/-- The credentials of a configuration: a token goes before a username with a password, and one of
the two without the other counts for nothing. -/
def ofConfig (c : DirectorConfig) : Credentials :=
  match c.token, c.username, c.password with
  | some token, _, _ => .bearer token
  | none, some username, some password => .basic username password
  | none, _, _ => .anonymous

end Credentials

/-- Whether a text can be the value of a header: tabs are the only control characters in it. -/
def isHeaderValue (s : String) : Bool :=
  s.toList.all fun c => c = '\t' || (0x20 ≤ c.toNat && c.toNat ≠ 0x7F)

/-- The way to a director. -/
structure Connection where
  /-- The address without a slash at its end. -/
  baseUrl : String
  credentials : Credentials
deriving DecidableEq, Repr

namespace Connection

/-- The connection of a configuration, whose durations must all be readable. -/
def ofConfig (c : DirectorConfig) : Except ConfigError Connection := do
  let baseUrl ← c.baseUrl
  let _ ← c.requestTimeoutValue
  let _ ← c.connectTimeoutValue
  let _ ← c.taskPollIntervalValue
  return ⟨baseUrl, .ofConfig c⟩

/-- A request with the address and the credentials of the connection. If there is a login in the
address, the request carries it too, in a header before that of the credentials. -/
def message (c : Connection) (r : Request) : Except Http.Failure Http.Message :=
  match Http.Url.resolve? none (c.baseUrl ++ r.path) with
  | some (.url url) =>
    let own := c.credentials.header?
    let login := url.login.bind fun l => (Credentials.basic l.name (l.password.getD "")).header?
    if own.all isHeaderValue then .ok ⟨r.method, url, login.toList ++ own.toList, r.body⟩
    else .error .unusableHeader
  | _ => .error .unusableAddress

/-- Sends a request, following at most ten redirects. -/
def exchange (c : Connection) (r : Request) (w : Http.Wire) : Http.Outcome × Http.Wire :=
  match c.message r with
  | .error reason => (.failed reason, w)
  | .ok m => m.deliver 10 w

/-- The connection as a way to the director. -/
def link (c : Connection) : Link Http.Wire where
  exchange := c.exchange
  left w := w.replies.length
  left_lt r w a h ha := by
    unfold exchange at h ⊢
    split at h
    · simp at h
    · exact Http.Message.length_replies_deliver_lt h ha

end Connection

end Rollout.Director
