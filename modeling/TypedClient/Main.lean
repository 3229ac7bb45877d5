/-
  TypedClient.Main

  The command line program.
-/
import TypedClient.Command
import TypedClient.Settings.Usage

namespace TypedClient

/-- The problem that the system reports. -/
def Command.FileProblem.ofSystem : IO.Error → Command.FileProblem
  | .noFileOrDirectory .. => .notFound
  | .alreadyExists .. => .alreadyExists
  | .inappropriateType _ code words =>
    if code = 20 then .notDirectory else if code = 21 then .isDirectory else .other words
  | error => .other (toString error)

/-- An action on real files, its problem told. -/
def Command.onFiles {α : Type} (action : IO α) : IO (Except FileProblem α) := do
  match ← action.toBaseIO with
  | .ok value => return .ok value
  | .error error => return .error (.ofSystem error)

/-- The real surroundings of a run. This build has no access to the web. -/
def Command.systemHost : Command.Host IO where
  read path := onFiles (IO.FS.readFile path)
  createDirectories path := onFiles (IO.FS.createDirAll path)
  write path text := onFiles (IO.FS.writeFile path text)
  fetch _ := return .error "no access to the web"
  print text := IO.print text

/-- Runs the program on a command line, and gives its exit code. -/
def Command.main (arguments : List String) : IO UInt32 := do
  match Arguments.parse arguments with
  | .error stop =>
    if stop.isAnswer then
      IO.print stop.message
      return 0
    else
      IO.eprint stop.message
      return 2
  | .ok arguments =>
    match ← (Command.run Command.systemHost arguments).run with
    | .ok () => return 0
    | .error error =>
      IO.eprintln error.message
      return error.exitCode.toUInt32

end TypedClient

/-- The program. -/
def main (arguments : List String) : IO UInt32 := TypedClient.Command.main arguments
