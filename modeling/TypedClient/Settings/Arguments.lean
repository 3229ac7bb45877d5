/-
  TypedClient.Settings.Arguments

  The command line. Options take a value, as the next argument or attached; switches take none.
  An option counts once its value is complete, that is when the next option or switch begins or
  the command line ends; problems with it show only then.
-/

namespace TypedClient

/-- What was asked for on the command line. -/
structure Arguments where
  spec : String
  name : Option String := none
  typeOnly : Bool := false
  output : Option String := none
  config : Option String := none
  deriving DecidableEq, Repr, Inhabited

namespace Arguments

/-- Why the command line is not run. -/
inductive Stop where
  /-- The source of the document is not given. -/
  | missingSpec
  /-- An argument is neither an option nor the value of one. -/
  | unknownArgument
  /-- An option has no value, or an empty one where a path is needed. -/
  | invalidValue
  /-- An option or switch is given twice. -/
  | repeated
  /-- A switch has a value. -/
  | unneededValue
  | help
  | version
  deriving DecidableEq, Repr

/-- Options with a value. -/
inductive ValueOption where
  | spec
  | name
  | output
  | config
  deriving DecidableEq, Repr

/-- Switches without a value. -/
inductive Switch where
  | typeOnly
  | help
  | version
  deriving DecidableEq, Repr

/-- What a name on the command line stands for. -/
inductive Known where
  | option (option : ValueOption)
  | switch (switch : Switch)

/-- Meaning of a name after two dashes. -/
def ofLong? (name : String) : Option Known :=
  match name with
  | "spec" => some (.option .spec)
  | "name" => some (.option .name)
  | "type-only" => some (.switch .typeOnly)
  | "output" => some (.option .output)
  | "config" => some (.option .config)
  | "help" => some (.switch .help)
  | "version" => some (.switch .version)
  | _ => none

/-- Meaning of a letter after one dash. -/
def ofShort? (letter : Char) : Option Known :=
  match letter with
  | 's' => some (.option .spec)
  | 'n' => some (.option .name)
  | 't' => some (.switch .typeOnly)
  | 'o' => some (.option .output)
  | 'c' => some (.option .config)
  | 'h' => some (.switch .help)
  | 'V' => some (.switch .version)
  | _ => none

/-- What has been read of a command line. -/
structure Progress where
  spec : Option String := none
  name : Option String := none
  typeOnly : Bool := false
  output : Option String := none
  config : Option String := none
  /-- The option that began last, with its value once there is one. -/
  begun : Option (ValueOption × Option String) := none

namespace Progress

/-- The value of an option that is complete. -/
def value? (progress : Progress) : ValueOption → Option String
  | .spec => progress.spec
  | .name => progress.name
  | .output => progress.output
  | .config => progress.config

/-- Sets the value of an option. -/
def set (option : ValueOption) (value : String) (progress : Progress) : Progress :=
  match option with
  | .spec => { progress with spec := some value }
  | .name => { progress with name := some value }
  | .output => { progress with output := some value }
  | .config => { progress with config := some value }

/-- Is the value of the option a path, which may not be empty? -/
def isPath : ValueOption → Bool
  | .output => true
  | .config => true
  | _ => false

/-- Completes an option with its value. -/
def complete (option : ValueOption) (value : String) (progress : Progress) :
    Except Stop Progress :=
  if (progress.value? option).isSome then .error .repeated
  else if isPath option && value.isEmpty then .error .invalidValue
  else .ok (progress.set option value)

/-- Completes the option that began last. -/
def settle (progress : Progress) : Except Stop Progress :=
  match progress.begun with
  | none => .ok progress
  | some (_, none) => .error .invalidValue
  | some (option, some value) => { progress with begun := none }.complete option value

/-- An option with an attached value, or one whose value follows. -/
def takeOption (option : ValueOption) (attached : Option String) (progress : Progress) :
    Except Stop Progress := do
  let progress ← progress.settle
  match attached with
  | some value => progress.complete option value
  | none => .ok { progress with begun := some (option, none) }

/-- A switch. -/
def takeSwitch (switch : Switch) (progress : Progress) : Except Stop Progress := do
  let progress ← progress.settle
  match switch with
  | .help => .error .help
  | .version => .error .version
  | .typeOnly =>
    if progress.typeOnly then .error .repeated else .ok { progress with typeOnly := true }

/-- A name after two dashes, with the value attached to it. -/
def takeLong (name : String) (attached : Option String) (progress : Progress) :
    Except Stop Progress :=
  match ofLong? name, attached with
  | some (.option option), attached => progress.takeOption option attached
  | some (.switch switch), none => progress.takeSwitch switch
  -- These two are told without a look at the option that began last.
  | some (.switch _), some _ => .error .unneededValue
  | none, _ => .error .unknownArgument

/-- The value attached to a letter, an equals sign before it left out. -/
def attachedValue? : List Char → Option String
  | [] => none
  | '=' :: rest => some (String.ofList rest)
  | rest => some (String.ofList rest)

/-- Letters after one dash: switches, up to an option that takes the rest as its value. -/
def takeShort : List Char → Progress → Except Stop Progress
  | [], progress => .ok progress
  | letter :: rest, progress =>
    match ofShort? letter with
    | some (.switch switch) => do takeShort rest (← progress.takeSwitch switch)
    | some (.option option) => progress.takeOption option (attachedValue? rest)
    | none => .error .unknownArgument

/-- An argument that is no option: the value of the one that began last. -/
def takeValue (value : String) (progress : Progress) : Except Stop Progress :=
  match progress.begun with
  | some (option, none) => .ok { progress with begun := some (option, some value) }
  | _ => .error .unknownArgument

/-- An argument before two dashes alone. -/
def take (argument : String) (progress : Progress) : Except Stop Progress :=
  match argument.toList with
  | '-' :: '-' :: rest =>
    match rest.span (· != '=') with
    | (name, []) => progress.takeLong (String.ofList name) none
    | (name, _ :: value) => progress.takeLong (String.ofList name) (some (String.ofList value))
  | '-' :: letter :: rest => progress.takeShort (letter :: rest)
  | _ => progress.takeValue argument

/-- Reads arguments one after the other. After two dashes alone none may follow. -/
def takeAll : List String → Progress → Except Stop Progress
  | [], progress => .ok progress
  | argument :: rest, progress =>
    if argument == "--" then if rest.isEmpty then .ok progress else .error .unknownArgument
    else do takeAll rest (← progress.take argument)

end Progress

/-- Reads a command line, without the name of the program. -/
def parse (arguments : List String) : Except Stop Arguments := do
  let progress ← (← Progress.takeAll arguments {}).settle
  match progress.spec with
  | none => .error .missingSpec
  | some spec =>
    .ok {
      spec := spec
      name := progress.name
      typeOnly := progress.typeOnly
      output := progress.output
      config := progress.config }

end Arguments

end TypedClient
