/-
  TypedClient.Registry

  Schemas that become declarations, under their names, in the order of their discovery.
-/
import TypedClient.Schema

namespace TypedClient

/-- A registered schema. -/
structure Entry where
  schema : SchemaNode
  /-- The declaration is a class of its own rather than an alias. -/
  isClass : Bool
  /-- The schema lists its values, and positions with this name print the name. -/
  isEnum : Bool
  deriving Inhabited

/-- What has been registered so far. -/
structure Registry where
  /-- Entries in the order of their discovery. -/
  entries : Keyed Entry := []
  /-- References that were walked, or are being walked. -/
  visited : List String := []
  /-- Target of each walked reference that leads to a schema object. -/
  resolved : Keyed Schema := []
  deriving Inhabited

namespace Registry

/-- The registry without entries. -/
def empty : Registry := {}

/-- The entry under a name. -/
def get? (registry : Registry) (name : String) : Option Entry := Keyed.get? name registry.entries

/-- Is there an entry under the name? -/
def has (registry : Registry) (name : String) : Bool := Keyed.has name registry.entries

/-- Does the entry under the name list its values? -/
def isEnum (registry : Registry) (name : String) : Bool := (registry.get? name).any (·.isEnum)

/-- Names of the entries in order. -/
def names (registry : Registry) : List String := Keyed.keys registry.entries

/-- The target of a walked reference. -/
def target? (registry : Registry) (reference : String) : Option Schema :=
  Keyed.get? reference registry.resolved

/-- Adds an entry at the end, unless its name is taken. -/
def insertNew (registry : Registry) (name : String) (entry : Entry) : Registry :=
  { registry with entries := registry.entries.insertNew name entry }

/-- Notes that a reference is being walked. -/
def visit (registry : Registry) (reference : String) : Registry :=
  { registry with visited := registry.visited ++ [reference] }

/-- Keeps the target of a walked reference. -/
def keepTarget (registry : Registry) (reference : String) (target : SchemaNode) : Registry :=
  match target with
  | .object schema => { registry with resolved := registry.resolved.insert reference schema }
  | .bool _ => registry

end Registry

end TypedClient
