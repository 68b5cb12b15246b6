import Rollout.Text.Percent
import Rollout.Text.Split

/-!
# Addresses

Absolute addresses with the schemes `http` and `https`, and references relative to them. Reading an
address brings it into normal form: scheme and host in lower case, no default port, no dot segments
in the path, and what may not stand in a path or a query percent-encoded. What follows a `#` is
never sent and is dropped. A login in front of the host is kept apart, as it is not sent as a part
of the address either.
-/

namespace Rollout.Http

/-- The name of a user, and the password if there is one. -/
structure Login where
  name : String
  password : Option String
deriving DecidableEq, Repr

/-- An address that a request can be sent to. -/
structure Url where
  secure : Bool
  login : Option Login
  host : String
  /-- The port, if it is not the default one. -/
  port : Option Nat
  /-- The segments of the path. -/
  path : List String
  query : Option String
deriving DecidableEq, Repr

/-- What a text refers to. -/
inductive Address where
  | url (u : Url)
  /-- A well-formed address with another scheme. -/
  | foreign
deriving DecidableEq, Repr

namespace Url

/-- The name of the scheme. -/
def scheme (u : Url) : String := if u.secure then "https" else "http"

/-- The path and the query, as a request line holds them. -/
def target (u : Url) : String :=
  "/" ++ "/".intercalate u.path ++ (u.query.map ("?" ++ ·)).getD ""

/-- The whole address. -/
def text (u : Url) : String :=
  u.scheme ++ "://" ++ u.host ++ (u.port.map fun n => ":" ++ .ofList (Nat.toDigits 10 n)).getD "" ++
    u.target

/-- Whether two addresses lead to the same server. -/
def sameServer (u v : Url) : Bool :=
  u.host = v.host && u.port.getD (if u.secure then 443 else 80) =
    v.port.getD (if v.secure then 443 else 80)

/-- An octet that may not stand in an address. -/
def isControl (b : UInt8) : Bool := b.toNat < 0x20 || 0x7F ≤ b.toNat

/-- A text with the octets that `mark` tells percent-encoded. -/
def encodeMarked (mark : List Char) (cs : List Char) : String :=
  .ofList <| (Text.Percent.octets (.ofList cs)).flatMap fun b =>
    if isControl b || mark.contains (Char.ofNat b.toNat) then Text.Percent.escape b
    else [Char.ofNat b.toNat]

/-- A segment of a path in normal form. -/
def encodeSegment (cs : List Char) : String :=
  encodeMarked [' ', '"', '#', '<', '>', '?', '\x60', '\x7b', '\x7d'] cs

/-- A query in normal form. -/
def encodeQuery (cs : List Char) : String := encodeMarked [' ', '"', '#', '\'', '<', '>'] cs

/-- The characters of an address without blanks and control characters at its ends, and without
tabs and line ends. -/
def clean (s : String) : List Char :=
  let outer (c : Char) := c.toNat ≤ 0x20
  let cs := (((s.toList.dropWhile outer).reverse.dropWhile outer).reverse)
  cs.filter fun c => c ≠ '\t' ∧ c ≠ '\n' ∧ c ≠ '\r'

/-- A segment that stands for the segment before it. -/
def isParent (s : String) : Bool :=
  [['.', '.'], ['.', '%', '2', 'e'], ['%', '2', 'e', '.'], ['%', '2', 'e', '%', '2', 'e']].contains
    (s.toList.map Char.toLower)

/-- A segment that stands for nothing. -/
def isHere (s : String) : Bool := [['.'], ['%', '2', 'e']].contains (s.toList.map Char.toLower)

/-- Segments added to a path, with dot segments taken at their meaning. -/
def addSegments (path : List String) : List String → List String
  | [] => path
  | [s] =>
    if isParent s then path.dropLast ++ [""]
    else if isHere s then path ++ [""]
    else path ++ [s]
  | s :: ss =>
    if isParent s then addSegments path.dropLast ss
    else if isHere s then addSegments path ss
    else addSegments (path ++ [s]) ss

/-- The segments of a path. -/
def segments (cs : List Char) : List String :=
  (Text.splitOn '/' (cs.map fun c => if c = '\\' then '/' else c)).map encodeSegment

/-- The text before a fragment, cut into path and query. -/
def cutQuery (cs : List Char) : List Char × Option String :=
  let cs := cs.takeWhile (· ≠ '#')
  match Text.cut '?' cs with
  | none => (cs, none)
  | some (path, query) => (path, some (encodeQuery query))

/-- A slash of either kind. -/
def isSlash (c : Char) : Bool := c = '/' || c = '\\'

/-- The scheme in front of an address in lower case, and what follows its colon. -/
def cutScheme (cs : List Char) : Option (List Char × List Char) :=
  match Text.cut ':' cs with
  | none => none
  | some (s, rest) =>
    let lower := s.map Char.toLower
    let allowed (c : Char) := c.isAlphanum || c = '+' || c = '-' || c = '.'
    if (lower.head?.any Char.isAlpha) && lower.all allowed then some (lower, rest) else none

/-- The number of a port, none if it is left out. -/
def port? (cs : List Char) : Option (Option Nat) :=
  if cs.isEmpty then some none
  else if cs.all Char.isDigit then
    let n := cs.foldl (fun n c => 10 * n + (c.toNat - 48)) 0
    if n < 65536 then some (some n) else none
  else none

/-- A character that cannot stand in the name of a host. -/
def isForbiddenInHost (c : Char) : Bool :=
  c.toNat ≤ 0x20 || c.toNat = 0x7F ||
    ['"', '#', '%', '/', ':', '<', '>', '?', '@', '[', '\\', ']', '^', '\x60', '\x7b', '|',
      '\x7d'].contains c

/-- Host and port. An address of version 6 stands in brackets. -/
def hostPort? (cs : List Char) : Option (String × Option Nat) := do
  match cs with
  | '[' :: rest =>
    let (inner, after) ← Text.cut ']' rest
    let fits (c : Char) := (Text.Percent.hexValue c).isSome || c = ':' || c = '.'
    if inner.isEmpty || !inner.all fits then none
    let port ← match after with
      | [] => some none
      | ':' :: ds => port? ds
      | _ => none
    return (.ofList ('[' :: inner.map Char.toLower ++ [']']), port)
  | _ =>
    let (host, port) ← match Text.cut ':' cs with
      | none => some (cs, none)
      | some (host, ds) => (port? ds).map fun n => (host, n)
    if host.isEmpty || host.any isForbiddenInHost then none
    return (.ofList (host.map Char.toLower), port)

/-- The octets of a text with escapes in it; a percent sign without two digits stands for itself. -/
def unescape : List Char → List UInt8
  | [] => []
  | '%' :: h :: l :: cs =>
    match Text.Percent.hexValue h, Text.Percent.hexValue l with
    | some high, some low => UInt8.ofNat (16 * high + low) :: unescape cs
    | _, _ => 37 :: unescape (h :: l :: cs)
  | c :: cs => Text.Percent.octets (.singleton c) ++ unescape cs

/-- The login that stands in front of a host: a name, and a password after the first colon. -/
def login? (cs : List Char) : Option Login := do
  let text (cs : List Char) := String.fromUTF8? ⟨(unescape cs).toArray⟩
  let (name, password) := (Text.cut ':' cs).getD (cs, [])
  let name ← text name
  let password := if password.isEmpty then none else text password
  if name.isEmpty && password.isNone then none else some ⟨name, password⟩

/-- The address with an authority, a path and a query, from the text after the slashes. -/
def ofAuthority? (secure : Bool) (cs : List Char) : Option Url := do
  let isEnd (c : Char) := isSlash c || c = '?' || c = '#'
  let authority := cs.takeWhile (!isEnd ·)
  let rest := cs.dropWhile (!isEnd ·)
  let parts := Text.splitOn '@' authority
  let login := login? (['@'].intercalate parts.dropLast)
  let (host, port) ← hostPort? (parts.getLast?.getD [])
  let (path, query) := cutQuery rest
  let port := if port = some (if secure then 443 else 80) then none else port
  return ⟨secure, login, host, port, addSegments [] (segments (path.drop 1)), query⟩

/-- What a reference without a scheme means relative to an address. -/
def ofRelative? (base : Url) (cs : List Char) : Option Url :=
  match cs with
  | a :: b :: rest =>
    if isSlash a && isSlash b then ofAuthority? base.secure (rest.dropWhile isSlash)
    else some (relative (a :: b :: rest))
  | cs => some (relative cs)
where
  relative (cs : List Char) : Url :=
    let (path, query) := cutQuery cs
    match path with
    | [] => { base with query := if query.isSome then query else base.query }
    | c :: rest =>
      if isSlash c then { base with path := addSegments [] (segments rest), query }
      else { base with path := addSegments base.path.dropLast (segments (c :: rest)), query }

/-- What a text refers to, relative to an address if there is one. -/
def resolve? (base : Option Url) (s : String) : Option Address :=
  let cs := clean s
  match cutScheme cs with
  | some (scheme, rest) =>
    if scheme = ['h', 't', 't', 'p'] ∨ scheme = ['h', 't', 't', 'p', 's'] then
      let secure : Bool := scheme.length = 5
      let slashes := (rest.takeWhile isSlash).length
      match base with
      | some b =>
        if slashes < 2 && b.secure = secure then (ofRelative? b rest).map .url
        else (ofAuthority? secure (rest.dropWhile isSlash)).map .url
      | none => (ofAuthority? secure (rest.dropWhile isSlash)).map .url
    else some .foreign
  | none =>
    match base with
    | some b => (ofRelative? b cs).map .url
    | none => none

end Url

end Rollout.Http
