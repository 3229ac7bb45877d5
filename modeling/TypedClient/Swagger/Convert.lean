/-
  TypedClient.Swagger.Convert

  Turning a Swagger 2.0 document into an OpenAPI 3 document. Main statements: exactly which
  documents are refused, and that nothing of the 2.0 syntax is left in the outcome.
-/
import TypedClient.Override
import TypedClient.Reference
import TypedClient.Swagger.Keywords
import TypedClient.Swagger.Parameter

namespace TypedClient.Swagger

/-- Why a document cannot be converted. -/
inductive Error where
  | documentNotObject
  | pathsNotObject
  | pathItemNotObject (path : String)
  | operationNotObject (path method : String)
  | bodyWithoutSchema (path method : String)
  | unresolvedParameter (reference : String)
  deriving DecidableEq, Repr

/-- Text of an error. -/
def Error.message : Error → String
  | .documentNotObject => "document is not an object"
  | .pathsNotObject => "\x60paths\x60 is not an object"
  | .pathItemNotObject path => "path item " ++ path ++ " is not an object"
  | .operationNotObject path method =>
    "operation " ++ method ++ " " ++ path ++ " is not an object"
  | .bodyWithoutSchema path method =>
    "body parameter of " ++ method ++ " " ++ path ++ " has no schema"
  | .unresolvedParameter reference => "unresolvable parameter reference " ++ reference

/-- Keys of a path item that hold an operation. -/
def methodKeys : List String := ["get", "put", "post", "delete", "options", "head", "patch"]

/-- A non-empty list of media types. -/
def mediaTypes? (value : Option Json) : Option (List String) :=
  match (value.bind Json.asArray?).map (·.filterMap Json.asString?) with
  | some (first :: rest) => some (first :: rest)
  | _ => none

/-- The media type for when a document names none. -/
def defaultMediaTypes : List String := ["application/json"]

/-- What the operations of a document share. -/
structure Context where
  /-- The global parameters, as they are written. -/
  parameters : Keyed Json
  consumes : List String
  produces : List String

/-! ## Responses -/

/-- Moves the schema keywords of a header into a schema. -/
def convertHeader : Json → Json
  | .obj fields => .obj (nestSchema fields)
  | value => value

/-- Converts the headers of a response in their place. -/
def convertHeaders (fields : Keyed Json) : Keyed Json :=
  match Keyed.get? "headers" fields with
  | some (.obj headers) => fields.insert "headers" (.obj (Keyed.mapValues convertHeader headers))
  | _ => fields

/-- A response with its schema under each media type. A reference stays as it is. -/
def convertResponse (produces : List String) : Json → Json
  | .obj fields =>
    if Keyed.has "$ref" fields then .obj fields
    else
      let (schema, rest) := takeField "schema" fields
      let rest := (rest.swapErase "examples").insertNew "description" (.str "")
      let rest := convertHeaders rest
      .obj (match schema with
        | some schema => rest.insert "content" (contentOf produces schema)
        | none => rest)
  | value => value

/-- Converts every response of an object of responses. -/
def convertResponses (produces : List String) (responses : Keyed Json) : Keyed Json :=
  responses.mapValues (convertResponse produces)

/-! ## Operations -/

/-- A parameter of an operation, with the reference that it came by. -/
abbrev Resolved := Json × Option String

/-- Start of the references to global parameters. -/
def parameterPrefix : String := "#/parameters/"

/-- The global parameter that a reference names. -/
def Context.parameter? (context : Context) (reference : String) : Option Json := do
  let name ← afterStart? parameterPrefix reference
  Keyed.get? (String.ofList (Reference.unescapeToken name.toList)) context.parameters

/-- The parameter that is meant: itself, or the global one that it refers to. -/
def Context.resolve (context : Context) (parameter : Json) : Except Error Resolved :=
  match textAt? "$ref" parameter with
  | none => .ok (parameter, none)
  | some reference =>
    match context.parameter? reference with
    | some target => .ok (target, some reference)
    | none => .error (.unresolvedParameter reference)

/-- The parameters that apply to an operation: those of its path, then its own, which take the
    place of those with their name and location. -/
def Context.merge (context : Context) (shared own : List Json) : Except Error (List Resolved) := do
  let resolved ← (shared ++ own).mapM context.resolve
  .ok (overrideAll (fun parameter => parameterKey parameter.1) resolved)

/-- The items of an array, or no items. -/
def itemsOf (value : Option Json) : List Json := (value.bind Json.asArray?).getD []

/-- The fields of an object, or no fields. -/
def fieldsOf (value : Option Json) : Keyed Json := (value.bind Json.asObject?).getD []

/-- A parameter that stays one: by its reference when it came by one. -/
def keptParameter (parameter : Resolved) : Json :=
  match parameter.2 with
  | some reference => .obj [("$ref", .str reference)]
  | none => convertParameter parameter.1

/-- The parameters that stay parameters. -/
def keptParameters (merged : List Resolved) : List Json :=
  (merged.filter fun parameter => !isBody parameter.1 && !isFormField parameter.1).map
    keptParameter

/-- The request body that parameters amount to: the last body parameter, or else all the form
    fields. A body parameter needs a schema. -/
def requestOf (mediaTypes : List String) (merged : List Resolved) (path method : String) :
    Except Error (Option Json) :=
  let parameters := merged.map (·.1)
  match (parameters.filter isBody).getLast? with
  | some body =>
    match bodyRequest? mediaTypes body with
    | some request => .ok (some request)
    | none => .error (.bodyWithoutSchema path method)
  | none =>
    match parameters.filter isFormField with
    | [] => .ok none
    | fields => .ok (some (formRequest mediaTypes fields))

/-- Converts an operation of a path whose parameters are `shared`. -/
def Context.operation (context : Context) (path method : String) (shared : List Json)
    (fields : Keyed Json) : Except Error (Keyed Json) := do
  -- Taking a field out moves another one into its place: the sequence of these steps shows.
  let (consumes, fields) := takeField "consumes" fields
  let (produces, fields) := takeField "produces" fields
  let fields := fields.swapErase "schemes"
  let (own, fields) := takeField "parameters" fields
  let consumes := (mediaTypes? consumes).getD context.consumes
  let produces := (mediaTypes? produces).getD context.produces
  let merged ← context.merge shared (itemsOf own)
  let parameters := keptParameters merged
  let fields := if parameters.isEmpty then fields else fields.insert "parameters" (.arr parameters)
  let request ← requestOf consumes merged path method
  let fields := match request with
    | some request => fields.insert "requestBody" request
    | none => fields
  let (responses, fields) := takeField "responses" fields
  .ok (fields.insert "responses" (.obj (convertResponses produces (fieldsOf responses))))

/-- Converts a field of a path item: an operation under a method, anything else stays. -/
def Context.itemField (context : Context) (path : String) (shared : List Json)
    (field : String × Json) : Except Error (String × Json) := do
  let (key, value) := field
  if methodKeys.contains key then
    match value with
    | .obj fields => .ok (key, .obj (← context.operation path key shared fields))
    | _ => .error (.operationNotObject path key)
  else .ok (key, value)

/-- Converts a path item, whose parameters move into its operations. -/
def Context.pathItem (context : Context) (item : String × Json) : Except Error (String × Json) :=
  match item with
  | (path, .obj fields) => do
    let (shared, fields) := takeField "parameters" fields
    .ok (path, .obj (← fields.mapM (context.itemField path (itemsOf shared))))
  | (path, _) => .error (.pathItemNotObject path)

/-! ## The document -/

/-- The one server that host, base path and scheme name. -/
def servers? (root : Keyed Json) : Option Json :=
  let text (key : String) : Option String := (Keyed.get? key root).bind Json.asString?
  let basePath := (text "basePath").getD ""
  let address := match text "host" with
    | some host =>
      let scheme := ((itemsOf (Keyed.get? "schemes" root)).head?.bind Json.asString?).getD "https"
      some (scheme ++ "://" ++ host ++ basePath)
    | none => if basePath.isEmpty then none else some basePath
  address.map fun address => .arr [.obj [("url", .str address)]]

/-- Is this the key of an extension? -/
def isExtension (key : String) : Bool := "x-".toList.isPrefixOf key.toList

/-- A list with one field, when there is a value for it. -/
def fieldOf (key : String) (value : Option Json) : Keyed Json :=
  (value.map fun value => (key, value)).toList

/-- The components of the outcome: definitions, global parameters and global responses. -/
def components (context : Context) (definitions responses : Option Json) : Keyed Json :=
  let parameters := Keyed.mapValues convertParameter <| context.parameters.filter fun parameter =>
    !isBody parameter.2 && !isFormField parameter.2
  fieldOf "schemas" definitions ++
  (if parameters.isEmpty then [] else [("parameters", .obj parameters)]) ++
  fieldOf "responses" ((responses.bind Json.asObject?).map fun responses =>
    .obj (convertResponses context.produces responses))

/-- Converts the paths of a document, which may have none. -/
def Context.paths (context : Context) (paths : Option Json) : Except Error (Keyed Json) :=
  match paths with
  | none => .ok []
  | some (.obj paths) => paths.mapM context.pathItem
  | some _ => .error .pathsNotObject

/-- Converts the root of a document, references and schemas apart. -/
def convertRoot (root : Keyed Json) : Except Error (Keyed Json) := do
  let (parameters, root) := takeField "parameters" root
  let context : Context := {
    parameters := fieldsOf parameters
    consumes := (mediaTypes? (Keyed.get? "consumes" root)).getD defaultMediaTypes
    produces := (mediaTypes? (Keyed.get? "produces" root)).getD defaultMediaTypes }
  let (info, root) := takeField "info" root
  let servers := servers? root
  let (tags, root) := takeField "tags" root
  let (externalDocs, root) := takeField "externalDocs" root
  let paths ← context.paths (Keyed.get? "paths" root)
  let components := components context (Keyed.get? "definitions" root)
    (Keyed.get? "responses" root)
  let noInfo : Json := .obj [("title", .str ""), ("version", .str "")]
  .ok ([("openapi", .str "3.0.3"), ("info", info.getD noInfo)] ++
    fieldOf "servers" servers ++ fieldOf "tags" tags ++ fieldOf "externalDocs" externalDocs ++
    root.filter (isExtension ·.1) ++ [("paths", .obj paths)] ++
    if components.isEmpty then [] else [("components", .obj components)])

/-- Converts a document. -/
def convert (document : Json) : Except Error Json :=
  match document with
  | .obj root => do .ok (upgrade (.obj (← convertRoot root)))
  | _ => .error .documentNotObject

/-- Is this a document of version 2? -/
def isVersion2 (document : Json) : Bool :=
  (textAt? "swagger" document).any fun version => "2.".toList.isPrefixOf version.toList

/-- Converts a document of version 2; any other one stays as it is. -/
def convertIfVersion2 (document : Json) : Except Error Json :=
  if isVersion2 document then convert document else .ok document

end TypedClient.Swagger
