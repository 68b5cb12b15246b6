import Rollout.Yaml.Reader
import Rollout.Yaml.Value.Display

/-!
# Manifests

What a deploy run needs to know of a manifest: the deployment that it declares and its releases in
order. Names, addresses and checksums are the source texts of scalars; a version is text or a
number in canonical form. One item that is not a release makes the whole manifest invalid.
-/

namespace Rollout

open Yaml (Value Reader Cause ReadError)

/-- A release that a manifest lists. -/
structure Release where
  name : String
  sha1 : Option String
  url : Option String
  version : String
deriving DecidableEq, Repr

/-- The address to fetch a release from, if it has one that is not empty. -/
def Release.sourceUrl? (r : Release) : Option String := r.url.filter (!·.isEmpty)

/-- A manifest with the bytes that it was read from. -/
structure Manifest where
  bytes : ByteArray
  name : String
  releases : List Release

namespace Manifest

/-- A release version: text, or the canonical text of a number. -/
def versionText : Value → Except Cause String
  | .string s => .ok s
  | .number n => .ok n.text
  | v => .error (.refused ("expected release version to be a string, got " ++ v.display))

/-- The fields of a release that have been read. -/
structure ReleaseFields where
  name : Option String := none
  sha1 : Option String := none
  url : Option String := none
  version : Option String := none

/-- The reader for a field of a release. -/
def releaseField (r : ReleaseFields) : String → Option (Reader ReleaseFields)
  | "name" => some (Reader.text.map fun s => { r with name := some s })
  | "sha1" => some (Reader.text.optional.map fun s => { r with sha1 := s })
  | "url" => some (Reader.text.optional.map fun s => { r with url := s })
  | "version" => some (versionReader.map fun s => { r with version := some s })
  | _ => none
where
  /-- A refused version is reported for the release that it belongs to. -/
  versionReader : Reader String := fun d depth path n => do
    let v ← Reader.value d depth path n
    match versionText v with
    | .ok s => return s
    | .error cause => throw (.node path.parent cause)

/-- A release; its name and its version must be there. -/
def releaseReader : Reader Release :=
  (Reader.record "struct ReleaseSpec" {} releaseField).refine fun r => do
    let name ← Reader.required "name" r.name
    let version ← Reader.required "version" r.version
    return ⟨name, r.sha1, r.url, version⟩

/-- The fields of a manifest that have been read. -/
structure Fields where
  name : Option String := none
  releases : List Release := []

/-- The reader for a field of a manifest. -/
def field (m : Fields) : String → Option (Reader Fields)
  | "name" => some (Reader.text.map fun s => { m with name := some s })
  | "releases" => some (releaseReader.sequence.map fun rs => { m with releases := rs })
  | _ => none

/-- The name and the releases of a manifest. -/
def reader : Reader (String × List Release) :=
  (Reader.record "struct ManifestFields" {} field).refine fun m => do
    let name ← Reader.required "name" m.name
    return (name, m.releases)

/-- The manifest that some bytes spell out. -/
def parse (bytes : ByteArray) : Except ReadError Manifest :=
  match reader.readBytes bytes with
  | .ok (name, releases) => .ok ⟨bytes, name, releases⟩
  | .error e => .error e

end Manifest

end Rollout
