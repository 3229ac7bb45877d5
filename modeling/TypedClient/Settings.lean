/-
  TypedClient.Settings

  What a run does: the command line counts first, then the configuration file, then the default.
-/
import TypedClient.Generate
import TypedClient.Settings.Arguments
import TypedClient.Settings.Config

namespace TypedClient

/-- What a run does. -/
structure Settings where
  options : Options
  /-- The file that the code is written to; without one it is printed. -/
  output : Option String
  deriving DecidableEq, Repr

/-- The settings that a command line and a configuration file amount to. -/
def Settings.resolve (arguments : Arguments) (config : Config) : Settings where
  options := {
    name := (arguments.name.or config.name).getD "Client"
    flavor := if arguments.typeOnly || config.typeOnly.getD false then .types else .schema }
  output := arguments.output.or config.output

end TypedClient
