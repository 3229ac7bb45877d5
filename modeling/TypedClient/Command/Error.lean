/-
  TypedClient.Command.Error

  What can go wrong in a run, and the exit code that tells it.
-/
import TypedClient.Swagger.Convert

namespace TypedClient.Command

/-- What can go wrong with a file. -/
inductive FileProblem where
  | notFound
  | alreadyExists
  | notDirectory
  | isDirectory
  | nameTooLong
  /-- Any other problem, in the words of the system. -/
  | other (words : String)
  deriving DecidableEq, Repr

/-- The words of the system for a problem. -/
def FileProblem.message : FileProblem → String
  | .notFound => "No such file or directory (os error 2)"
  | .alreadyExists => "File exists (os error 17)"
  | .notDirectory => "Not a directory (os error 20)"
  | .isDirectory => "Is a directory (os error 21)"
  | .nameTooLong => "File name too long (os error 36)"
  | .other words => words

/-- What a run does with files. -/
inductive FileAction where
  | readSpec
  | readConfig
  | createDirectory
  | write
  deriving DecidableEq, Repr

/-- Words for an action. -/
def FileAction.words : FileAction → String
  | .readSpec => "read spec"
  | .readConfig => "read config"
  | .createDirectory => "create directory"
  | .write => "write"

/-- Why a run fails. -/
inductive Error where
  /-- The name of the source does not tell a format. -/
  | unsupportedFormat (source : String) (extension : Option String)
  /-- The text is not of its format. -/
  | malformedDocument (source : String)
  /-- The document cannot be had from the web. -/
  | fetch (url reason : String)
  | file (action : FileAction) (path : String) (problem : FileProblem)
  | config (path : String)
  | conversion (error : Swagger.Error)
  /-- The schemas of the document refer to each other without end. -/
  | endlessSchema (source : String)
  deriving DecidableEq, Repr

namespace Error

/-- Text of an error. -/
def message : Error → String
  | .unsupportedFormat source extension =>
    "unsupported spec format for " ++ source ++ ": " ++ extension.getD "no extension" ++
      " (expected json, yaml or yml)"
  | .malformedDocument source => "failed to parse " ++ source
  | .fetch url reason => "failed to fetch " ++ url ++ ": " ++ reason
  | .file action path problem =>
    "failed to " ++ action.words ++ " " ++ path ++ ": " ++ problem.message
  | .config path => "invalid config file " ++ path
  | .conversion error => "conversion to OpenAPI 3 failed: " ++ error.message
  | .endlessSchema source => "schemas of " ++ source ++ " do not end"

/-- Exit code of a run that fails: 2 when a document cannot be converted, and 1 otherwise. -/
def exitCode : Error → Nat
  | .conversion _ => 2
  | _ => 1

end Error

end TypedClient.Command
