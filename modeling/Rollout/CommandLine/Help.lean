import Rollout.CommandLine

/-!
# Help

What is shown in place of running a command: the version, the help, and a line for a command line
that is refused.
-/

namespace Rollout.CommandLine

/-- The version of the program. -/
def versionText : String := "deployctl 0.1.0\n"

/-- The help. -/
def helpText : String :=
  "Deployment update orchestrator\n\n" ++
  "Usage: deployctl [OPTIONS] <COMMAND>\n\n" ++
  "Commands:\n" ++
  "  deploy <MANIFEST> -d <DEPLOYMENT>  Update a deployment from a manifest\n" ++
  "  interpolate <MANIFEST>             Print the manifest with variables interpolated\n" ++
  "  help                               Print this message\n\n" ++
  "Variables:\n" ++
  "  -v, --var <NAME=VALUE>    Set variable; takes precedence over vars files\n" ++
  "  -l, --vars-file <PATH>    Load variables from a YAML file\n\n" ++
  "Options of deploy:\n" ++
  "  -d, --deployment <NAME>   Name of the targeted deployment [env: DEPLOYCTL_DEPLOYMENT]\n" ++
  "      --recreate            Recreate all VMs in the deployment\n" ++
  "      --skip-drain[=<GROUP,...>]  Skip drain scripts for all groups or the listed ones\n" ++
  "  -n, --non-interactive     Do not prompt for confirmation\n\n" ++
  "Options:\n" ++
  "      --verbose             Enable verbose logging\n" ++
  "      --config <PATH>       Config file [env: DEPLOYCTL_CONFIG]\n" ++
  "      --director <URL>      Director URL\n" ++
  "  -h, --help                Print help\n" ++
  "  -V, --version             Print version\n"

namespace Refusal

/-- Why a command line is refused, in words. -/
def message : Refusal → String
  | .unknownArgument => "unexpected argument found"
  | .missingRequiredArgument => "the required arguments were not provided"
  | .invalidValue => "a value is required but none was supplied"
  | .argumentConflict => "an argument cannot be used multiple times"
  | .invalidSubcommand => "unrecognized subcommand"
  | .missingSubcommand => "a subcommand is required but one was not provided"
  | .tooManyValues => "unexpected value for an argument found"
  | .badVariable e => e.message
  | .help | .helpForNothing => helpText
  | .version => versionText

/-- Whether it was asked for what is shown: help or the version. -/
def isAnswer : Refusal → Bool
  | .help | .version => true
  | _ => false

/-- What is shown for a refusal. -/
def text (r : Refusal) : String :=
  match r with
  | .help | .helpForNothing | .version => r.message
  | r => "error: " ++ r.message ++ "\n\nFor more information, try '--help'.\n"

end Refusal

end Rollout.CommandLine
