/-
  TypedClient.Schema.Cleanup

  Cleaning a schema until it stops changing: `null` leaves type lists, an empty `oneOf` goes, and
  a composition of one member is merged into the schema that holds it.

  A pass needs a lone member cleaned first, so `cleanupOnce` and `cleanup` depend on each other.
  The knot is untied by the depth to which lone members nest, which every pass can only lower.
-/
import TypedClient.Schema.Merge

namespace TypedClient

/-- The three keywords that compose schemas. -/
inductive Composition where
  | allOf
  | anyOf
  | oneOf
  deriving DecidableEq, Repr

/-- Members of a schema under a composition keyword. -/
def Composition.members? : Composition → Schema → Option (List SchemaNode)
  | .allOf, schema => schema.allOf
  | .anyOf, schema => schema.anyOf
  | .oneOf, schema => schema.oneOf

/-- The schema without a composition keyword. -/
def Composition.remove : Composition → Schema → Schema
  | .allOf, schema => { schema with allOf := none }
  | .anyOf, schema => { schema with anyOf := none }
  | .oneOf, schema => { schema with oneOf := none }

namespace Schema

/-- The schema object that is the only member of a composition. -/
def lone? (composition : Composition) (schema : Schema) : Option Schema :=
  match composition.members? schema with
  | some [.object member] => some member
  | _ => none

theorem sizeOf_lone_lt {composition : Composition} {schema member : Schema}
    (h : schema.lone? composition = some member) : sizeOf member < sizeOf schema := by
  have members : composition.members? schema = some [.object member] := by
    unfold lone? at h
    split at h
    · cases h; assumption
    · cases h
  cases composition <;> cases schema <;> simp_all [Composition.members?] <;> omega

/-- Depth to which lone members nest. -/
def loneDepth (schema : Schema) : Nat :=
  let under (composition : Composition) : Nat :=
    match _h : schema.lone? composition with
    | some member => loneDepth member + 1
    | none => 0
  max (under .allOf) (max (under .anyOf) (under .oneOf))
termination_by sizeOf schema
decreasing_by exact sizeOf_lone_lt _h

/-- A list of type names without `null`: no names at all, one name, or a list. What is left of a
    list that held nothing but `null` is the `null` type. -/
def withoutNull (names : List String) : Option TypeNames :=
  match names.filter (· != "null") with
  | [] => if names.contains "null" then some (.single "null") else none
  | [name] => some (.single name)
  | rest => some (.several rest)

/-- Takes `null` out of a type list and marks the schema as nullable instead. -/
def settleType (schema : Schema) : Schema :=
  match schema.type with
  | some (.several names) =>
    let settled := { schema with type := withoutNull names }
    if names.contains "null" && settled.typeName? != some "null" then
      { settled with nullable := some true }
    else settled
  | _ => schema

/-- Drops a `oneOf` without members. -/
def dropEmptyOneOf (schema : Schema) : Schema :=
  match schema.oneOf with
  | some [] => { schema with oneOf := none }
  | _ => schema

/-- Merges the only member of a composition, cleaned, over the schema that holds it. A member that
    admits everything just goes, and one that admits nothing stays. -/
def collapse (clean : Schema → Schema) (composition : Composition) (schema : Schema) : Schema :=
  match composition.members? schema with
  | some [.object member] => merge (clean member) (composition.remove schema)
  | some [.bool true] => composition.remove schema
  | _ => schema

/-- One pass, given how a lone member is cleaned. -/
def pass (clean : Schema → Schema) (schema : Schema) : Schema :=
  schema.settleType.dropEmptyOneOf
    |> collapse clean .allOf |> collapse clean .anyOf |> collapse clean .oneOf

/-- The most passes that are made over a schema. -/
@[irreducible] def maxPasses : Nat := 32

/-- Cleans a schema whose lone members nest less than `depth` deep. -/
def cleanupWithin : Nat → Schema → Schema
  | 0, schema => schema
  | depth + 1, schema => Nat.repeat (pass (cleanupWithin depth)) maxPasses schema

/-- The cleaned schema: passes are made until nothing changes. -/
def cleanup (schema : Schema) : Schema := cleanupWithin (schema.loneDepth + 1) schema

/-- One pass over a schema, with every lone member cleaned first. -/
def cleanupOnce (schema : Schema) : Schema := pass cleanup schema

end Schema

namespace SchemaNode

/-- The node with its schema cleaned. -/
def cleanup : SchemaNode → SchemaNode
  | .object schema => .object schema.cleanup
  | .bool admits => .bool admits

/-- The cleaned schema object: the empty one for what admits everything, none for what admits
    nothing. -/
def toSchema? : SchemaNode → Option Schema
  | .bool true => some Schema.empty
  | .bool false => none
  | .object schema => some schema.cleanup

end SchemaNode

end TypedClient
