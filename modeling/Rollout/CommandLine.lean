import Rollout.SkipDrain
import Rollout.Variable

/-!
# The command line

The commands of the program with their arguments, and why a command line is refused. The program
has a few options that every command understands, and each command has options of its own.
-/

namespace Rollout.CommandLine

/-- Where the variables of a manifest come from. -/
structure VariableArguments where
  pairs : List Binding := []
  /-- The paths of variables files. -/
  files : List String := []
deriving Repr

/-- A command. -/
inductive Command where
  /-- Updates a deployment from a manifest. -/
  | deploy (manifest deployment : String) (vars : VariableArguments)
      (options : UpdateOptions) (nonInteractive : Bool)
  /-- Prints a manifest with its variables replaced. -/
  | interpolate (manifest : String) (vars : VariableArguments)
deriving Repr

/-- A command with the options that every command understands. -/
structure Invocation where
  command : Command
  verbose : Bool
  /-- The path of the configuration. -/
  config : Option String
  /-- The address of the director. -/
  director : Option String
deriving Repr

/-- Why a command line is refused, or what is shown in place of running a command. -/
inductive Refusal where
  | unknownArgument
  | missingRequiredArgument
  | invalidValue
  | argumentConflict
  | invalidSubcommand
  | missingSubcommand
  | tooManyValues
  | badVariable (e : BindingError)
  | help
  | helpForNothing
  | version
deriving DecidableEq, Repr

/-- The options that a command line may hold. -/
inductive Switch where
  | help
  | version
  | verbose
  | config
  | director
  | deployment
  | variable
  | variablesFile
  | recreate
  | skipDrain
  | nonInteractive
deriving DecidableEq, Repr

/-- Whether an option has a value. -/
inductive Arity where
  | none
  | one
  /-- A value only behind an equals sign. -/
  | attached
deriving DecidableEq, Repr

/-- Whether an option has a value. -/
def Switch.arity : Switch → Arity
  | .help | .version | .verbose | .recreate | .nonInteractive => .none
  | .config | .director | .deployment | .variable | .variablesFile => .one
  | .skipDrain => .attached

/-- The part of a command line that an option may stand in: before the command or behind it. -/
inductive Level where
  | program
  | deploy
  | interpolate
deriving DecidableEq, Repr

namespace Level

/-- The options of a part with their long names. -/
def longNames : Level → List (String × Switch)
  | .program => ("version", .version) :: shared
  | .deploy => [("deployment", .deployment), ("recreate", .recreate), ("skip-drain", .skipDrain),
      ("non-interactive", .nonInteractive)] ++ vars ++ shared
  | .interpolate => vars ++ shared
where
  shared : List (String × Switch) :=
    [("help", .help), ("verbose", .verbose), ("config", .config), ("director", .director)]
  vars : List (String × Switch) := [("var", .variable), ("vars-file", .variablesFile)]

/-- The options of a part with their short names. -/
def shortNames : Level → List (Char × Switch)
  | .program => [('h', .help), ('V', .version)]
  | .deploy => [('h', .help), ('d', .deployment), ('v', .variable), ('l', .variablesFile),
      ('n', .nonInteractive)]
  | .interpolate => [('h', .help), ('v', .variable), ('l', .variablesFile)]

/-- The option with a long name. -/
def long? (l : Level) (name : String) : Option Switch := l.longNames.lookup name

/-- The option with a short name. -/
def short? (l : Level) (name : Char) : Option Switch := l.shortNames.lookup name

/-- Whether a part has a place for a manifest. -/
def hasManifest : Level → Bool
  | .program => false
  | .deploy | .interpolate => true

end Level

end Rollout.CommandLine
