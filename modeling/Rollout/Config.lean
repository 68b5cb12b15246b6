import Rollout.Duration
import Rollout.Yaml.Reader
import Rollout.Yaml.Value.Write

/-!
# Configuration

How the director is reached and whether questions are asked. A configuration is read from a file;
then the environment and then the command line replace single fields. A variable that is not set or
empty replaces nothing.
-/

namespace Rollout

open Yaml (Value Reader ReadError)

/-- How to reach the director. Durations are kept as they are written until they are needed. -/
structure DirectorConfig where
  url : Option String := none
  /-- A bearer token. -/
  token : Option String := none
  username : Option String := none
  password : Option String := none
  requestTimeout : String := "60s"
  connectTimeout : String := "10s"
  taskPollInterval : String := "2s"
deriving DecidableEq, Repr

/-- A configuration. -/
structure Config where
  director : DirectorConfig := {}
  /-- Whether every question is answered with yes. -/
  nonInteractive : Bool := false
deriving DecidableEq, Repr

/-- Why a configuration cannot be used. -/
inductive ConfigError where
  | missingField (field : String)
  | invalidValue (field value : String)
  | fileNotFound (path : String)
  | unparsable (e : ReadError)
deriving Repr

def ConfigError.message : ConfigError → String
  | .missingField field => "Required configuration missing: " ++ field
  | .invalidValue field value => "Invalid configuration value for " ++ field ++ ": " ++ value
  | .fileNotFound path => "Config file not found: " ++ path
  | .unparsable e => "Failed to parse config: " ++ e.message

namespace DirectorConfig

/-- The reader for a field. -/
def field (c : DirectorConfig) : String → Option (Reader DirectorConfig)
  | "url" => some (Reader.text.optional.map fun s => { c with url := s })
  | "token" => some (Reader.text.optional.map fun s => { c with token := s })
  | "username" => some (Reader.text.optional.map fun s => { c with username := s })
  | "password" => some (Reader.text.optional.map fun s => { c with password := s })
  | "request_timeout" => some (Reader.text.map fun s => { c with requestTimeout := s })
  | "connect_timeout" => some (Reader.text.map fun s => { c with connectTimeout := s })
  | "task_poll_interval" => some (Reader.text.map fun s => { c with taskPollInterval := s })
  | _ => none

/-- The director's part of a configuration. -/
def reader : Reader DirectorConfig := Reader.record "struct DirectorConfig" {} field

/-- A text without the slashes at its end. -/
def dropTrailingSlashes (s : String) : String :=
  .ofList (s.toList.reverse.dropWhile (· = '/')).reverse

/-- The address of the director without blanks around it and without slashes at its end. -/
def baseUrl (c : DirectorConfig) : Except ConfigError String :=
  match (c.url.map Text.trim).filter (!·.isEmpty) with
  | some url => .ok (dropTrailingSlashes url)
  | none => .error (.missingField "director.url (or DIRECTOR_URL)")

/-- The duration that a field holds. -/
def duration (field value : String) : Except ConfigError Duration :=
  match Duration.parse? value with
  | some d => .ok d
  | none => .error (.invalidValue field value)

/-- How long a request may take. -/
def requestTimeoutValue (c : DirectorConfig) : Except ConfigError Duration :=
  duration "director.request_timeout" c.requestTimeout

/-- How long it may take to connect. -/
def connectTimeoutValue (c : DirectorConfig) : Except ConfigError Duration :=
  duration "director.connect_timeout" c.connectTimeout

/-- How long to wait before asking for a task again. -/
def taskPollIntervalValue (c : DirectorConfig) : Except ConfigError Duration :=
  duration "director.task_poll_interval" c.taskPollInterval

/-- The director's part as a value. -/
def toValue (c : DirectorConfig) : Value :=
  let optional (s : Option String) : Value := (s.map Value.string).getD .null
  .mapping [(.string "url", optional c.url), (.string "token", optional c.token),
    (.string "username", optional c.username), (.string "password", optional c.password),
    (.string "request_timeout", .string c.requestTimeout),
    (.string "connect_timeout", .string c.connectTimeout),
    (.string "task_poll_interval", .string c.taskPollInterval)]

end DirectorConfig

/-- The variables of an environment. -/
abbrev Environment := String → Option String

/-- The value of a variable that is set and not empty. -/
def Environment.value? (env : Environment) (name : String) : Option String :=
  (env name).filter (!·.isEmpty)

namespace Config

/-- The reader for a field. -/
def field (c : Config) : String → Option (Reader Config)
  | "director" => some (DirectorConfig.reader.map fun d => { c with director := d })
  | "non_interactive" => some (Reader.flag.map fun b => { c with nonInteractive := b })
  | _ => none

/-- A configuration. -/
def reader : Reader Config := Reader.record "struct DeployctlConfig" {} field

/-- The configuration that a text spells out; a blank text leaves everything at its default. -/
def parse (text : String) : Except ConfigError Config :=
  if Text.isBlankText text then .ok {}
  else (reader.readText text).mapError .unparsable

/-- The configuration in a file with the given content, `none` for a file that cannot be read. -/
def ofFile (path : String) (content : Option ByteArray) : Except ConfigError Config :=
  match content.bind String.fromUTF8? with
  | none => .error (.fileNotFound path)
  | some text => parse text

/-- A configuration with the variables of an environment in place of its fields. -/
def withEnvironment (c : Config) (env : Environment) : Config :=
  let d := c.director
  { c with director := { d with
    url := (env.value? "DIRECTOR_URL").or d.url
    token := (env.value? "DIRECTOR_TOKEN").or d.token
    username := (env.value? "DIRECTOR_USERNAME").or d.username
    password := (env.value? "DIRECTOR_PASSWORD").or d.password } }

/-- The default file in a home directory. -/
def defaultPath (home : String) : String :=
  let gap := if home.toList.getLast?.all (· = '/') then "" else "/"
  home ++ gap ++ ".deployctl.yaml"

/-- The configuration of a file and an environment. A file that is asked for must be there; the
default file in the home directory need not. -/
def load (path : Option String) (files : String → Option ByteArray) (env : Environment) :
    Except ConfigError Config := do
  let config ← match path, (env "HOME").map defaultPath with
    | some path, _ => ofFile path (files path)
    | none, some path => if (files path).isSome then ofFile path (files path) else .ok {}
    | none, none => .ok {}
  return config.withEnvironment env

/-- A configuration with what the command line says about it. -/
def withFlags (c : Config) (director : Option String) (nonInteractive : Bool) : Config :=
  { director := { c.director with url := director.or c.director.url }
    nonInteractive := c.nonInteractive || nonInteractive }

/-- The text of a configuration. -/
def write? (c : Config) : Option String :=
  (Value.mapping [(.string "director", c.director.toValue),
    (.string "non_interactive", .bool c.nonInteractive)]).write?

end Config

end Rollout
