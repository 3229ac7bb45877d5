/-
  TypedClient.Command

  One run: the document is loaded, converted where that is needed, and turned into code, which is
  printed or written to a file. What a run needs of its surroundings is a record, so that the same
  run works on real files and on a tree of files that is a value.
-/
import TypedClient.Command.Error
import TypedClient.Settings
import TypedClient.Source

namespace TypedClient.Command

/-- What a run needs of its surroundings. -/
structure Host (m : Type → Type) where
  /-- Text of a file. -/
  read : String → m (Except FileProblem String)
  /-- Creates a directory and those around it, unless they are there. -/
  createDirectories : String → m (Except FileProblem Unit)
  /-- Writes a file. -/
  write : String → String → m (Except FileProblem Unit)
  /-- Text from an address of the web, or the reason why there is none. -/
  fetch : String → m (Except String String)
  /-- Prints a text. -/
  print : String → m Unit

variable {m : Type → Type} [Monad m]

/-- An action that may fail, its problem told as an error. -/
def orFail {α ε : Type} (describe : ε → Error) (action : m (Except ε α)) : ExceptT Error m α :=
  ExceptT.mk do return (← action).mapError describe

/-- The configuration file, if one is named. -/
def loadConfig (host : Host m) (path : Option String) : ExceptT Error m Config := do
  match path with
  | none => return {}
  | some path =>
    let text ← orFail (.file .readConfig path) (host.read path)
    match Config.parse? text with
    | some config => return config
    | none => throw (.config path)

/-- The format of a source. -/
def formatOf (source : SpecSource) : Except Error SpecFormat :=
  match source.format? with
  | some format => .ok format
  | none => .error (.unsupportedFormat source.render source.extension?)

/-- Text of a source. -/
def readSource (host : Host m) : SpecSource → ExceptT Error m String
  | .file path => orFail (.file .readSpec path) (host.read path)
  | .web url => orFail (.fetch url.render) (host.fetch url.render)

/-- The value that a text of a source holds. -/
def parseText (format : SpecFormat) (name text : String) : Except Error Json :=
  match format.parse? text with
  | some document => .ok document
  | none => .error (.malformedDocument name)

/-- The document that a source holds. -/
def load (host : Host m) (source : SpecSource) : ExceptT Error m Json := do
  let format ← ExceptT.mk (pure (formatOf source))
  let text ← readSource host source
  ExceptT.mk (pure (parseText format source.render text))

/-- The code for a document of either version. -/
def codeFor (source : SpecSource) (options : Options) (document : Json) : Except Error String := do
  let document ← (Swagger.convertIfVersion2 document).mapError .conversion
  match generate? document options with
  | some code => .ok code
  | none => .error (.endlessSchema source.render)

/-- Writes a file in a directory that is created where needed. -/
def writeOutput (host : Host m) (path code : String) : ExceptT Error m Unit := do
  match (Source.Path.parent? path).filter (!·.isEmpty) with
  | some parent => orFail (.file .createDirectory parent) (host.createDirectories parent)
  | none => pure ()
  orFail (.file .write path) (host.write path code)

/-- One run. -/
def run (host : Host m) (arguments : Arguments) : ExceptT Error m Unit := do
  -- Nothing is written before the code is complete.
  let config ← loadConfig host arguments.config
  let settings := Settings.resolve arguments config
  let source := SpecSource.ofText arguments.spec
  let document ← load host source
  let code ← ExceptT.mk (pure (codeFor source settings.options document))
  match settings.output with
  | some path => writeOutput host path code
  | none => ExceptT.lift (host.print code)

end TypedClient.Command
