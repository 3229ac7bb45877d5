/-
  TypedClient.Operation.Extract

  The operations of a document. The schemas of their parameters, bodies and responses are
  registered on the way, under names derived from the operation, so that an operation itself only
  carries names.
-/
import TypedClient.Document.PathItem
import TypedClient.Override
import TypedClient.Registry.Walk

namespace TypedClient

open Document

namespace Operation

/-! ## Parameters -/

/-- Name and location, which tell parameters apart. -/
def parameterKey (parameter : Parameter) : String × String := (parameter.name, parameter.location)

/-- The parameters that apply to an operation: those of its path, then its own, which take the
    place of those with their name and location. References that lead nowhere are left out. -/
def mergedParameters (document : Json) (shared own : List (MaybeRef Parameter)) :
    List Parameter :=
  overrideAll parameterKey <|
    (shared ++ own).filterMap (MaybeRef.resolve document Parameter.ofJson?)

/-- The parameters outside the path, folded into one object, with the fields of each location. -/
structure ParamsShape where
  properties : Keyed SchemaNode := []
  required : List String := []
  urlParams : List String := []
  headers : List String := []
  cookies : List String := []
  deriving Inhabited

/-- The schema of a parameter: a text when it says nothing. -/
def parameterNode (parameter : Parameter) : SchemaNode :=
  match parameter.schema with
  | some schema => SchemaNode.ofJson schema
  | none => .object { type := some (.single "string") }

/-- The schema with properties behind a parameter, following a reference. -/
def deepObject? (document : Json) (node : SchemaNode) : Option Schema := do
  let schema ← node.toSchema?
  let schema ← match schema.ref with
    | some reference => (Reference.resolveNode document reference).bind SchemaNode.toSchema?
    | none => some schema
  if schema.properties.isSome then some schema else none

/-- The fields that a parameter adds, each with its schema and whether it is required: one for
    each property of an object, and else just one. -/
def parameterFields (document : Json) (parameter : Parameter) : List (String × SchemaNode × Bool) :=
  let node := parameterNode parameter
  match deepObject? document node with
  | some object =>
    (object.properties.getD []).map fun (key, property) =>
      (parameter.name ++ "[" ++ key ++ "]", property, (object.required.getD []).contains key)
  | none => [(parameter.name, node, parameter.required)]

namespace ParamsShape

/-- The shape with one more field. -/
def addField (shape : ParamsShape) (field : String × SchemaNode × Bool) : ParamsShape :=
  let (name, node, required) := field
  { shape with
    properties := shape.properties.insert name node
    required := if required then shape.required ++ [name] else shape.required }

/-- The shape without a field. -/
def dropField (shape : ParamsShape) (name : String) : ParamsShape :=
  { shape with
    properties := shape.properties.erase name
    required := shape.required.filter (· != name) }

/-- The shape with the fields of one more parameter; one in the path or in an unknown location
    adds nothing. -/
def addParameter (document : Json) (shape : ParamsShape) (parameter : Parameter) : ParamsShape :=
  if parameter.location == "path" then shape
  else
    let fields := parameterFields document parameter
    let names := fields.map (·.1)
    let shape := fields.foldl addField shape
    -- A field dropped again also takes along one of its name that was there before.
    match parameter.location with
    | "query" => { shape with urlParams := shape.urlParams ++ names }
    | "header" => { shape with headers := shape.headers ++ names }
    | "cookie" => { shape with cookies := shape.cookies ++ names }
    | _ => names.foldl dropField shape

/-- The shape of the parameters that apply to an operation. -/
def ofParameters (document : Json) (shared own : List (MaybeRef Parameter)) : ParamsShape :=
  (mergedParameters document shared own).foldl (addParameter document) {}

/-- The shape as an object schema. -/
def toSchema (shape : ParamsShape) : Schema where
  type := some (.single "object")
  properties := some shape.properties
  required := some shape.required

end ParamsShape

/-! ## Names -/

/-- The least suffix from 2 up that makes an id new. Among one more candidates than there are ids,
    one is always free. -/
def freshSuffix (ids : List String) (id : String) : Nat :=
  let candidates := (List.range (ids.length + 1)).map (· + 2)
  (candidates.find? fun suffix => !ids.contains (id ++ toString suffix)).getD 2

/-- The suffix that makes an id new: none when it is new already. -/
def suffixFor (ids : List String) (id : String) : String :=
  if ids.contains id then toString (freshSuffix ids id) else ""

/-- Id of an operation, and the id that names of its schemas start with. -/
def baseIds (path : String) (method : HttpMethod) (operation : RawOperation) : String × String :=
  match operation.operationId.bind Text.nonEmpty? with
  | some id => (Text.camelize id, Text.identifier id)
  | none => (method.wireName ++ path, Text.identifier (method.key ++ path))

/-- A status in the name of a schema: as it is when it starts with a digit, else an identifier. -/
def statusSuffix (status : String) : String :=
  if status.toList.head?.any Char.isDigit then status else Text.identifier status

/-! ## Registration -/

/-- Registers the shape of the parameters, if there are any. -/
def registerParams (document : Json) (fuel : Nat) (registry : Registry) (schemaId : String)
    (shape : ParamsShape) : Option (Option String × Registry) :=
  if shape.properties.isEmpty then some (none, registry)
  else do
    let (name, registry) ← registry.add document fuel (schemaId ++ "Params")
      (.object shape.toSchema) true
    some (some name, registry)

/-- The media type of forms with files. -/
def formMediaType : String := "multipart/form-data"

/-- Registers the body of a request. JSON comes first, then a form; no other body is sent. -/
def registerPayload (document : Json) (fuel : Nat) (registry : Registry) (schemaId : String)
    (body : Option (MaybeRef RequestBody)) : Option (Option Payload × Registry) :=
  match body.bind (MaybeRef.resolve document RequestBody.ofJson?) with
  | none => some (none, registry)
  | some body =>
    match jsonSchema? body.content, Keyed.get? formMediaType body.content with
    | some schema, _ => do
      let (name, registry) ← registry.add document fuel (schemaId ++ "Request")
        (SchemaNode.ofJson schema) false
      some (some (.json name), registry)
    | none, some ⟨some schema⟩ => do
      let (name, registry) ← registry.add document fuel (schemaId ++ "RequestFormData")
        (SchemaNode.ofJson schema) true
      some (some (.form (some name)), registry)
    | none, some ⟨none⟩ => some (some (.form none), registry)
    | none, none => some (none, registry)

/-- The responses of an operation, by what they are decoded with. -/
structure Responses where
  successes : Keyed String := []
  errors : Keyed String := []
  voids : List String := []
  /-- Declaration of the `default` response. -/
  defaultSchema : Option String := none
  /-- The `default` response has no content. -/
  defaultVoid : Bool := false
  deriving Inhabited

namespace Responses

/-- A response without content. -/
def addVoid (responses : Responses) (status : String) : Responses :=
  if status == "default" then { responses with defaultVoid := true }
  else if (statusClass? status).isSome then
    { responses with voids := responses.voids ++ [status] }
  else responses

/-- A response described by a declaration. -/
def addSchema (responses : Responses) (status name : String) : Responses :=
  if status == "default" then { responses with defaultSchema := some name }
  else if isSuccessStatus status then
    { responses with successes := responses.successes.insert status name }
  else if (statusClass? status).isSome then
    { responses with errors := responses.errors.insert status name }
  else responses

/-- Registers one response. References that lead nowhere and responses without a JSON schema are
    left out. -/
def register (document : Json) (fuel : Nat) (schemaId : String)
    (state : Responses × Registry) (response : String × MaybeRef Response) :
    Option (Responses × Registry) :=
  let (responses, registry) := state
  let status := response.1.map Char.toLower
  match response.2.resolve document Response.ofJson? with
  | none => some (responses, registry)
  | some ⟨_, none⟩ => some (responses.addVoid status, registry)
  | some ⟨_, some content⟩ =>
    match jsonSchema? content with
    | none => some (responses, registry)
    | some schema => do
      let (name, registry) ← registry.add document fuel (schemaId ++ statusSuffix response.1)
        (SchemaNode.ofJson schema) true
      some (responses.addSchema status name, registry)

/-- Lets the `default` response stand for success when nothing else does. -/
def promoteDefault (responses : Responses) : Responses :=
  if !responses.successes.isEmpty || responses.voids.any isSuccessStatus then responses
  else match responses.defaultSchema with
    | some name => { responses with successes := responses.successes.insert "2xx" name }
    | none =>
      if responses.defaultVoid then { responses with voids := responses.voids ++ ["2xx"] }
      else responses

end Responses

/-! ## Extraction -/

/-- Registers the schemas of one operation and reads it, given the ids that are taken. -/
def extract (document : Json) (fuel : Nat) (registry : Registry) (ids : List String)
    (path : String) (method : HttpMethod) (raw : RawOperation)
    (shared : List (MaybeRef Parameter)) : Option (Operation × Registry) := do
  let (baseId, baseSchemaId) := baseIds path method raw
  let suffix := suffixFor ids baseId
  let schemaId := baseSchemaId ++ suffix
  let parts := PathPart.ofPath path
  let shape := ParamsShape.ofParameters document shared raw.parameters
  -- Declarations come in this sequence: parameters, body, responses.
  let (params, registry) ← registerParams document fuel registry schemaId shape
  let (payload, registry) ← registerPayload document fuel registry schemaId raw.requestBody
  let (responses, registry) ←
    raw.responses.foldlM (Responses.register document fuel schemaId) ({}, registry)
  let responses := responses.promoteDefault
  some ({
    id := baseId ++ suffix
    method := method
    description := (raw.description.bind Text.nonEmpty?).or (raw.summary.bind Text.nonEmpty?)
    pathIds := parts.filterMap PathPart.parameter?
    path := parts
    params := params
    paramsOptional := shape.required.isEmpty
    urlParams := shape.urlParams
    headers := shape.headers
    cookies := shape.cookies
    payload := payload
    successSchemas := responses.successes
    errorSchemas := responses.errors
    voidStatuses := responses.voids }, registry)

/-- Operations read so far, and what they registered. -/
abbrev Extraction := List Operation × Registry

/-- Reads one more operation of a path. -/
def extractNext (document : Json) (fuel : Nat) (path : String)
    (shared : List (MaybeRef Parameter)) (state : Extraction)
    (raw : HttpMethod × RawOperation) : Option Extraction := do
  let (operations, registry) := state
  let (operation, registry) ←
    extract document fuel registry (operations.map (·.id)) path raw.1 raw.2 shared
  some (operations ++ [operation], registry)

/-- Reads the operations of one more path; a malformed path item is left out. -/
def extractPath (document : Json) (fuel : Nat) (state : Extraction) (path : String × Json) :
    Option Extraction :=
  match PathItem.ofJson? path.2 with
  | none => some state
  | some item =>
    item.operations.foldlM (extractNext document fuel path.1 item.parameters) state

/-- Reads every operation of a document, in the order of the paths and the methods. -/
def extractAll (document : Json) (fuel : Nat) (registry : Registry) : Option Extraction :=
  match (document.get? "paths").bind Json.asObject? with
  | none => some ([], registry)
  | some paths => paths.foldlM (extractPath document fuel) ([], registry)

end Operation

end TypedClient
