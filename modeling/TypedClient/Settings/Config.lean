/-
  TypedClient.Settings.Config

  The configuration file, which gives defaults for what the command line leaves open.
-/
import TypedClient.Toml.Entries

namespace TypedClient

/-- What a configuration file says. -/
structure Config where
  name : Option String := none
  typeOnly : Option Bool := none
  output : Option String := none
  deriving DecidableEq, Repr, Inhabited

namespace Config

/-- Adds an entry of the file. Unknown keys, values of another type and repeated keys are
    refused. -/
def add? (config : Config) (entry : String × Toml.Value) : Option Config :=
  match entry, config with
  | ("name", .text value), ⟨none, typeOnly, output⟩ => some ⟨some value, typeOnly, output⟩
  | ("type_only", .flag value), ⟨name, none, output⟩ => some ⟨name, some value, output⟩
  | ("output", .text value), ⟨name, typeOnly, none⟩ => some ⟨name, typeOnly, some value⟩
  | _, _ => none

/-- Reads a configuration file. -/
def parse? (text : String) : Option Config := do
  (← Toml.entries? text).foldlM add? {}

end Config

end TypedClient
