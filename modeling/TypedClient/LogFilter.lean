/-
  TypedClient.LogFilter

  The filter of log messages that the value of an environment variable asks for.
-/
import TypedClient.Text.Blank

namespace TypedClient.LogFilter

/-- The parts of the program that write log messages. -/
def targets : List String := ["openapi_gen", "openapi_gen_core"]

/-- The level for all parts of the program. -/
def forTargets (level : String) : String :=
  ",".intercalate (targets.map fun target => target ++ "=" ++ level)

/-- Is the text the name of a level, in any case? -/
def isLevel (text : String) : Bool :=
  ["trace", "debug", "info", "warn", "error"].contains (text.map Char.toLower)

/-- A level alone is for the program's own messages, a blank value or none asks for the usual
    level, and any other value is a filter as it is. -/
def ofValue (value : Option String) : String :=
  match value with
  | none => forTargets "info"
  | some text =>
    if isLevel text then forTargets text
    else if (Text.nonEmpty? text).isNone then forTargets "info"
    else text

end TypedClient.LogFilter
