/-
  TypedClient.Schema

  Schemas as an API description writes them: a truth value, or an object of optional keywords. A
  `const` or `default` of `null` is told apart from an absent one.
-/
import TypedClient.Json

namespace TypedClient

/-- The `type` keyword: one name, or a list of names. -/
inductive TypeNames where
  | single (name : String)
  | several (names : List String)
  deriving DecidableEq, Repr, Inhabited

/-- An exclusive limit: a flag on the inclusive limit beside it, or a limit of its own. -/
inductive Exclusive where
  | flag (strict : Bool)
  | bound (limit : Number)
  deriving DecidableEq, Repr, Inhabited

mutual
/-- The keywords of a schema object that have a meaning here. -/
structure Schema where
  type : Option TypeNames := none
  ref : Option String := none
  properties : Option (List (String × SchemaNode)) := none
  required : Option (List String) := none
  additionalProperties : Option SchemaNode := none
  items : Option Items := none
  enum : Option (List Json) := none
  const : Option Json := none
  allOf : Option (List SchemaNode) := none
  anyOf : Option (List SchemaNode) := none
  oneOf : Option (List SchemaNode) := none
  nullable : Option Bool := none
  default : Option Json := none
  description : Option String := none
  title : Option String := none
  format : Option String := none
  contentEncoding : Option String := none
  pattern : Option String := none
  minLength : Option Nat := none
  maxLength : Option Nat := none
  minItems : Option Nat := none
  maxItems : Option Nat := none
  minimum : Option Number := none
  maximum : Option Number := none
  exclusiveMinimum : Option Exclusive := none
  exclusiveMaximum : Option Exclusive := none

/-- A place where a schema stands: `true` admits everything, `false` nothing. -/
inductive SchemaNode where
  | bool (admits : Bool)
  | object (schema : Schema)

/-- The `items` keyword: one schema for every item, or one for each position. -/
inductive Items where
  | single (item : SchemaNode)
  | tuple (items : List SchemaNode)
end

instance : Inhabited Schema := ⟨{}⟩

instance : Inhabited SchemaNode := ⟨.bool true⟩

namespace Schema

/-- The schema without keywords. -/
def empty : Schema := {}

/-- The one type name, when there is just one. -/
def typeName? (schema : Schema) : Option String :=
  match schema.type with
  | some (.single name) => some name
  | _ => none

/-- Does the schema list its values, by `enum` or by `const`? -/
def isEnumLike (schema : Schema) : Bool := schema.enum.isSome || schema.const.isSome

/-- Does the schema admit `null` alone, by type or by constant? -/
def isNull (schema : Schema) : Bool :=
  schema.typeName? == some "null" || schema.const.any Json.isNull

/-- Members of a union: those of `anyOf`, or else those of `oneOf`. -/
def unionMembers? (schema : Schema) : Option (List SchemaNode) := schema.anyOf.or schema.oneOf

/-- The text that documents the schema. -/
def summary? (schema : Schema) : Option String := schema.description.or schema.title

end Schema

namespace SchemaNode

/-- The schema object, when this is one. -/
def object? : SchemaNode → Option Schema
  | .object schema => some schema
  | .bool _ => none

/-- Does the schema list its values? -/
def isEnumLike (node : SchemaNode) : Bool := node.object?.any Schema.isEnumLike

end SchemaNode

end TypedClient
