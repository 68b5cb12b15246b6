import Rollout.Config
import Rollout.CommandLine

/-!
# Reading command lines

A command line is read from left to right. An argument that may be the value of the option before
it is kept back until the next option or argument shows that it is complete; a value that is refused
is therefore reported only then, and not at all if that next thing is itself refused.
-/

namespace Rollout.CommandLine

/-- What has been read of one part of a command line. -/
structure Found where
  manifest : Option String := none
  deployment : Option String := none
  vars : VariableArguments := {}
  recreate : Bool := false
  skipDrain : Option (Option String) := none
  nonInteractive : Bool := false
  verbose : Bool := false
  config : Option String := none
  director : Option String := none
deriving Repr

/-- A thing that takes a value: an option, or the place for the manifest. -/
inductive Slot where
  | option (s : Switch)
  | manifest
deriving DecidableEq, Repr

namespace Found

/-- A field that is set for the first time. -/
def once {α : Type} (field : Option α) (value : α) : Except Refusal (Option α) :=
  match field with
  | none => .ok (some value)
  | some _ => .error .argumentConflict

/-- A flag that is set for the first time. -/
def raise (flag : Bool) : Except Refusal Bool := if flag then .error .argumentConflict else .ok true

/-- A path; an empty text is none. -/
def path (s : String) : Except Refusal String := if s.isEmpty then .error .invalidValue else .ok s

/-- What has been read, with a thing and its value added. -/
def accept (f : Found) : Slot → Option String → Except Refusal Found
  | .option .help, _ => .error .help
  | .option .version, _ => .error .version
  | .option .verbose, _ => do return { f with verbose := ← raise f.verbose }
  | .option .recreate, _ => do return { f with recreate := ← raise f.recreate }
  | .option .nonInteractive, _ => do return { f with nonInteractive := ← raise f.nonInteractive }
  | .option .skipDrain, value => do return { f with skipDrain := ← once f.skipDrain value }
  | _, none => .error .invalidValue
  | .option .config, some s => do
    let config ← once f.config s
    let _ ← path s
    return { f with config }
  | .option .director, some s => do return { f with director := ← once f.director s }
  | .option .deployment, some s => do return { f with deployment := ← once f.deployment s }
  | .option .variable, some s =>
    match Binding.parse s with
    | .ok b => .ok { f with vars.pairs := f.vars.pairs ++ [b] }
    | .error e => .error (.badVariable e)
  | .option .variablesFile, some s => do
    let s ← path s
    return { f with vars.files := f.vars.files ++ [s] }
  | .manifest, some s => do
    let manifest ← once f.manifest s
    let _ ← path s
    return { f with manifest }

end Found

/-- The state of reading one part of a command line. -/
structure Reading where
  found : Found := {}
  /-- The thing whose value is not complete yet, with the value if there already is one. -/
  pending : Option (Slot × Option String) := none
  /-- Whether everything that follows is an argument and not an option. -/
  onlyArguments : Bool := false
  /-- Whether the place for the manifest has been used. -/
  hasManifest : Bool := false

namespace Reading

/-- Accepts what is pending. -/
def settle (r : Reading) : Except Refusal Reading :=
  match r.pending with
  | none => .ok r
  | some (slot, value) => do
    let found ← r.found.accept slot value
    return { r with found, pending := none }

/-- Accepts what is pending and then an option that is complete. -/
def take (r : Reading) (s : Switch) (value : Option String) : Except Refusal Reading := do
  let r ← r.settle
  let found ← r.found.accept (.option s) value
  return { r with found }

/-- The option that the next argument is the value of. -/
def awaiting (r : Reading) : Option Slot :=
  match r.pending with
  | some (slot, none) => some slot
  | _ => none

/-- An option with the value that is attached to it, if there is one. -/
def give (r : Reading) (s : Switch) (attached : Option String) : Except Refusal Reading :=
  match s.arity, attached with
  | .none, none => r.take s none
  | .none, some _ => .error .tooManyValues
  | .attached, value => r.take s value
  | .one, some value => r.take s (some value)
  | .one, none => do
    let r ← r.settle
    return { r with pending := some (.option s, none) }

/-- A long option. -/
def long (r : Reading) (l : Level) (body : String) : Except Refusal Reading :=
  let (name, value) := match Text.cutAt '=' body with
    | some (name, value) => (name, some value)
    | none => (body, none)
  match l.long? name with
  | none => .error .unknownArgument
  | some s => r.give s value

/-- A row of short options. The first one with a value takes what follows it as its value. -/
def short (r : Reading) (l : Level) : List Char → Except Refusal Reading
  | [] => .ok r
  | c :: cs =>
    match l.short? c with
    | none => .error .unknownArgument
    | some s =>
      match s.arity with
      | .none => do
        let r ← r.take s none
        short r l cs
      | _ =>
        match cs with
        | [] => r.give s none
        | '=' :: cs => r.give s (some (.ofList cs))
        | cs => r.give s (some (.ofList cs))

/-- An argument. -/
def argument (r : Reading) (l : Level) (arg : String) : Except Refusal Reading :=
  if l.hasManifest && !r.hasManifest then do
    let r ← r.settle
    return { r with pending := some (.manifest, some arg), hasManifest := true }
  else if l = .program then
    if r.onlyArguments && ["deploy", "interpolate", "help"].contains arg then
      .error .unknownArgument
    else .error .invalidSubcommand
  else .error .unknownArgument

/-- One item of a command line that does not name a command. -/
def item (r : Reading) (l : Level) (arg : String) : Except Refusal Reading :=
  if r.onlyArguments then r.argument l arg
  else
    match arg.toList with
    | ['-', '-'] => .ok { r with onlyArguments := true }
    | '-' :: '-' :: body => r.long l (.ofList body)
    | '-' :: c :: cs => r.short l (c :: cs)
    | _ =>
      match r.awaiting with
      | some slot => .ok { r with pending := some (slot, some arg) }
      | none => r.argument l arg

end Reading

/-- What is shown when help is asked for a row of commands. -/
def helpFor : List String → Refusal
  | [] => .help
  | ["deploy"] | ["interpolate"] | ["help"] => .help
  | _ => .invalidSubcommand

/-- Reads the part behind a command. -/
def scan (l : Level) : Reading → List String → Except Refusal Reading
  | r, [] => .ok r
  | r, arg :: args => do
    let r ← r.item l arg
    scan l r args

/-- Reads the part before the command, up to the command and what follows it. -/
def scanProgram : Reading → List String → Except Refusal (Reading × Option (Level × List String))
  | r, [] => .ok (r, none)
  | r, arg :: args => do
    if !r.onlyArguments && r.awaiting.isNone then
      match arg with
      | "deploy" => return (r, some (.deploy, args))
      | "interpolate" => return (r, some (.interpolate, args))
      | "help" => throw (helpFor args)
      | _ => pure ()
    let r ← r.item .program arg
    scanProgram r args

/-- The path of the configuration that the environment names; it may not be empty. -/
def environmentConfig (env : Environment) (f : Found) : Except Refusal (Option String) :=
  match f.config, env "DEPLOYCTL_CONFIG" with
  | none, some s => (Found.path s).map some
  | config, _ => .ok config

/-- The command that a part behind a command spells out. -/
def command? (l : Level) (f : Found) (env : Environment) : Option Command := do
  let manifest ← f.manifest
  match l with
  | .program => none
  | .deploy =>
    let deployment ← f.deployment.or (env "DEPLOYCTL_DEPLOYMENT")
    return .deploy manifest deployment f.vars ⟨f.recreate, .ofFlag f.skipDrain⟩
      f.nonInteractive
  | .interpolate => return .interpolate manifest f.vars

/-- The invocation that a command line spells out. Options behind the command go before those in
front of it, and both before the environment. -/
def parse (args : List String) (env : Environment) : Except Refusal Invocation := do
  let (outer, rest) ← scanProgram {} args
  match rest with
  | none =>
    let outer ← outer.settle
    let config ← environmentConfig env outer.found
    if config.isNone && outer.found.director.isNone && !outer.found.verbose then
      throw .helpForNothing
    else throw .missingSubcommand
  | some (level, args) =>
    let inner ← scan level {} args
    let inner ← inner.settle
    let _ ← environmentConfig env inner.found
    let some command := command? level inner.found env | throw .missingRequiredArgument
    let outer ← outer.settle
    let outerConfig ← environmentConfig env outer.found
    return ⟨command, inner.found.verbose || outer.found.verbose, inner.found.config.or outerConfig,
      inner.found.director.or outer.found.director⟩

end Rollout.CommandLine
