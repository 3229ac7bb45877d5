/-
  TypedClient.Settings.Usage

  What is printed when the command line is not run.
-/
import TypedClient.Settings.Arguments

namespace TypedClient.Arguments

/-- Name of the program. -/
def programName : String := "openapi-gen"

/-- Version of the program. -/
def programVersion : String := "0.1.0"

/-- One line that shows how the program is called. -/
def usageLine : String := "Usage: " ++ programName ++ " [OPTIONS] --spec <PATH|URL>"

/-- The description of all options. -/
def helpText : String := "\n".intercalate [
  "Generate a typed Effect TypeScript client from an OpenAPI spec",
  "",
  usageLine,
  "",
  "Options:",
  "  -s, --spec <PATH|URL>  Path or http(s) URL of the spec (.json, .yaml or .yml)",
  "  -n, --name <NAME>      Name of the generated client interface",
  "  -t, --type-only        Emit plain TypeScript types instead of Effect schemas",
  "  -o, --output <FILE>    Write the client to this file instead of stdout",
  "  -c, --config <FILE>    TOML file with defaults for name, type_only and output",
  "  -h, --help             Print help",
  "  -V, --version          Print version",
  ""]

/-- Text for a command line that is not run. -/
def Stop.message : Stop → String
  | .missingSpec => "error: the option '--spec <PATH|URL>' is required\n\n" ++ usageLine ++ "\n"
  | .unknownArgument => "error: unexpected argument found\n\n" ++ usageLine ++ "\n"
  | .invalidValue => "error: an option lacks its value\n\n" ++ usageLine ++ "\n"
  | .repeated => "error: an option is given more than once\n\n" ++ usageLine ++ "\n"
  | .unneededValue => "error: a value is given to an option that takes none\n\n" ++ usageLine ++ "\n"
  | .help => helpText
  | .version => programName ++ " " ++ programVersion ++ "\n"

/-- Is the text what was asked for? Otherwise it tells an error. -/
def Stop.isAnswer : Stop → Bool
  | .help => true
  | .version => true
  | _ => false

end TypedClient.Arguments
