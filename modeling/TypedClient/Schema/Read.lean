/-
  TypedClient.Schema.Read

  Reading a schema out of a document. Reading never fails: a keyword of the wrong shape is left
  out on its own, and a value that is neither a truth value nor an object admits everything.
-/
import TypedClient.Schema

namespace TypedClient.Schema

/-- The texts of a list, when all its items are texts. -/
def texts? (items : List Json) : Option (List String) := items.mapM Json.asString?

/-- A type keyword. -/
def typeOf? : Json → Option TypeNames
  | .str name => some (.single name)
  | .arr names => (texts? names).map .several
  | _ => none

/-- A list of texts. -/
def textsOf? : Json → Option (List String)
  | .arr items => texts? items
  | _ => none

/-- A count: an integer from 0 up. -/
def countOf? : Json → Option Nat
  | .num (.int value) => if 0 ≤ value then some value.toNat else none
  | _ => none

/-- A number. -/
def numberOf? : Json → Option Number
  | .num value => some value
  | _ => none

/-- An exclusive limit. -/
def exclusiveOf? : Json → Option Exclusive
  | .bool strict => some (.flag strict)
  | .num limit => some (.bound limit)
  | _ => none

/-- The schema with one keyword that holds no schema set from its value. A key without a meaning
    changes nothing. -/
def setPlain (key : String) (value : Json) (schema : Schema) : Schema :=
  match key with
  | "type" => { schema with type := typeOf? value }
  | "$ref" => { schema with ref := value.asString? }
  | "required" => { schema with required := textsOf? value }
  | "enum" => { schema with enum := value.asArray? }
  | "const" => { schema with const := some value }
  | "nullable" => { schema with nullable := value.asBool? }
  | "default" => { schema with default := some value }
  | "description" => { schema with description := value.asString? }
  | "title" => { schema with title := value.asString? }
  | "format" => { schema with format := value.asString? }
  | "contentEncoding" => { schema with contentEncoding := value.asString? }
  | "pattern" => { schema with pattern := value.asString? }
  | "minLength" => { schema with minLength := countOf? value }
  | "maxLength" => { schema with maxLength := countOf? value }
  | "minItems" => { schema with minItems := countOf? value }
  | "maxItems" => { schema with maxItems := countOf? value }
  | "minimum" => { schema with minimum := numberOf? value }
  | "maximum" => { schema with maximum := numberOf? value }
  | "exclusiveMinimum" => { schema with exclusiveMinimum := exclusiveOf? value }
  | "exclusiveMaximum" => { schema with exclusiveMaximum := exclusiveOf? value }
  | _ => schema

/-- The schema with a keyword that holds one schema set. -/
def setNode (key : String) (node : SchemaNode) (schema : Schema) : Schema :=
  match key with
  | "additionalProperties" => { schema with additionalProperties := some node }
  | "items" => { schema with items := some (.single node) }
  | _ => schema

/-- The schema with a keyword that holds a list of schemas set. -/
def setNodes (key : String) (nodes : List SchemaNode) (schema : Schema) : Schema :=
  match key with
  | "items" => { schema with items := some (.tuple nodes) }
  | "allOf" => { schema with allOf := some nodes }
  | "anyOf" => { schema with anyOf := some nodes }
  | "oneOf" => { schema with oneOf := some nodes }
  | "additionalProperties" => { schema with additionalProperties := some (.bool true) }
  | _ => schema

mutual
/-- The schema of an object's fields. -/
def ofFields : List (String × Json) → Schema
  | [] => {}
  | (key, value) :: rest => setKeyword key value (ofFields rest)

/-- The schema with the keyword under `key`, if it is one, set from its value. -/
def setKeyword (key : String) (value : Json) (schema : Schema) : Schema :=
  setPlain key value <| match value with
    | .null => schema
    | .arr items => setNodes key (ofItems items) schema
    | .obj fields =>
      if key == "properties" then { schema with properties := some (ofNamed fields) }
      else setNode key (.object (ofFields fields)) schema
    | .bool admits => setNode key (.bool admits) schema
    | _ => setNode key (.bool true) schema

/-- The schemas of a list of values. -/
def ofItems : List Json → List SchemaNode
  | [] => []
  | .obj fields :: rest => .object (ofFields fields) :: ofItems rest
  | .bool admits :: rest => .bool admits :: ofItems rest
  | _ :: rest => .bool true :: ofItems rest

/-- The schemas of the values under each name. -/
def ofNamed : List (String × Json) → List (String × SchemaNode)
  | [] => []
  | (name, .obj fields) :: rest => (name, .object (ofFields fields)) :: ofNamed rest
  | (name, .bool admits) :: rest => (name, .bool admits) :: ofNamed rest
  | (name, _) :: rest => (name, .bool true) :: ofNamed rest
end

end TypedClient.Schema

namespace TypedClient.SchemaNode

/-- The schema that a value of a document stands for. -/
def ofJson : Json → SchemaNode
  | .obj fields => .object (Schema.ofFields fields)
  | .bool admits => .bool admits
  | _ => .bool true

end TypedClient.SchemaNode
