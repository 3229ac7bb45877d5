/-
  TypedClient.Schema.Merge

  Merging two schemas, the first of which wins every conflict.
-/
import TypedClient.Schema

namespace TypedClient.Schema

/-- Every keyword of `first`, and those of `second` that `first` does not have. -/
def overlay (first second : Schema) : Schema where
  type := first.type.or second.type
  ref := first.ref.or second.ref
  properties := first.properties.or second.properties
  required := first.required.or second.required
  additionalProperties := first.additionalProperties.or second.additionalProperties
  items := first.items.or second.items
  enum := first.enum.or second.enum
  const := first.const.or second.const
  allOf := first.allOf.or second.allOf
  anyOf := first.anyOf.or second.anyOf
  oneOf := first.oneOf.or second.oneOf
  nullable := first.nullable.or second.nullable
  default := first.default.or second.default
  description := first.description.or second.description
  title := first.title.or second.title
  format := first.format.or second.format
  contentEncoding := first.contentEncoding.or second.contentEncoding
  pattern := first.pattern.or second.pattern
  minLength := first.minLength.or second.minLength
  maxLength := first.maxLength.or second.maxLength
  minItems := first.minItems.or second.minItems
  maxItems := first.maxItems.or second.maxItems
  minimum := first.minimum.or second.minimum
  maximum := first.maximum.or second.maximum
  exclusiveMinimum := first.exclusiveMinimum.or second.exclusiveMinimum
  exclusiveMaximum := first.exclusiveMaximum.or second.exclusiveMaximum

/-- The properties of both schemas, each under its first declaration. -/
def mergedProperties (first second : Schema) : Keyed SchemaNode :=
  Keyed.union (first.properties.getD []) (second.properties.getD [])

/-- The required names of both schemas, one list after the other. -/
def mergedRequired (first second : Schema) : Option (List String) :=
  if first.required.isSome || second.required.isSome then
    some (first.required.getD [] ++ second.required.getD [])
  else none

/-- Merges two schemas. When either declares properties, the properties and the required names of
    both are kept; otherwise two `anyOf` lists become one. Every other keyword is the first
    schema's when it has it, and the second's when not. -/
def merge (first second : Schema) : Schema :=
  if first.properties.isSome || second.properties.isSome then
    { overlay first second with
      properties := some (mergedProperties first second)
      required := mergedRequired first second }
  else
    match first.anyOf, second.anyOf with
    | some left, some right => { overlay first second with anyOf := some (left ++ right) }
    | _, _ => overlay first second

end TypedClient.Schema
