/-
  TypedClient.Swagger.Parameter

  Parameters of Swagger 2.0. One that stands for a body or a form field becomes part of a request
  body; in any other one the keywords of its schema move into a schema of its own.
-/
import TypedClient.Json

namespace TypedClient.Swagger

/-- Keywords of a parameter or a header that belong to its schema. -/
def schemaKeywords : List String := [
  "type", "format", "items", "enum", "default", "minimum", "maximum", "exclusiveMinimum",
  "exclusiveMaximum", "minLength", "maxLength", "pattern", "minItems", "maxItems", "uniqueItems",
  "multipleOf"]

/-- Takes a field out of an object: what it held, if it was there, and the rest. -/
def takeField (key : String) (fields : Keyed Json) : Option Json × Keyed Json :=
  (Keyed.get? key fields, fields.swapErase key)

/-- Takes the keywords of the schema out of an object: the schema, and the rest. -/
def takeSchema (fields : Keyed Json) : Keyed Json × Keyed Json :=
  schemaKeywords.foldl (fun (schema, fields) key =>
    match takeField key fields with
    | (some value, rest) => (schema.insert key value, rest)
    | (none, _) => (schema, fields)) ([], fields)

/-- Moves the keywords of the schema into a field of their own, if there are any. -/
def nestSchema (fields : Keyed Json) : Keyed Json :=
  let (schema, rest) := takeSchema fields
  if schema.isEmpty then rest else rest.insert "schema" (.obj schema)

/-- Style of a list in a location, and whether each item is written on its own. -/
def listStyle? (format location : String) : Option (String × Bool) :=
  match format with
  | "multi" => some ("form", true)
  | "csv" => some (if location == "query" || location == "cookie" then "form" else "simple", false)
  | "ssv" => some ("spaceDelimited", false)
  | "pipes" => some ("pipeDelimited", false)
  | _ => none

/-- Puts the style of a list in the place of its collection format. -/
def convertListFormat (fields : Keyed Json) : Keyed Json :=
  match takeField "collectionFormat" fields with
  | (some (.str format), rest) =>
    let location := ((Keyed.get? "in" rest).bind Json.asString?).getD "query"
    match listStyle? format location with
    | some (style, explode) =>
      (rest.insert "style" (.str style)).insert "explode" (.bool explode)
    | none => rest
  | (_, rest) => rest

/-- A parameter that is neither a body nor a form field. -/
def convertParameter : Json → Json
  | .obj fields => .obj (convertListFormat (nestSchema fields))
  | value => value

/-- A text under a key. -/
def textAt? (key : String) (value : Json) : Option String := (value.get? key).bind Json.asString?

/-- Name and location, which tell parameters apart. -/
def parameterKey (parameter : Json) : Option String × Option String :=
  (textAt? "name" parameter, textAt? "in" parameter)

/-- Does the parameter stand for a body? -/
def isBody (parameter : Json) : Bool := textAt? "in" parameter == some "body"

/-- Does the parameter stand for a form field? -/
def isFormField (parameter : Json) : Bool := textAt? "in" parameter == some "formData"

/-- Is the parameter marked as required? -/
def isRequired (parameter : Json) : Bool :=
  (parameter.get? "required").bind Json.asBool? == some true

/-! ## Bodies -/

/-- A schema under each media type. -/
def contentOf (mediaTypes : List String) (schema : Json) : Json :=
  .obj (Keyed.ofList (mediaTypes.map fun mediaType => (mediaType, .obj [("schema", schema)])))

/-- The request body that a body parameter becomes, if it has a schema. -/
def bodyRequest? (mediaTypes : List String) (body : Json) : Option Json := do
  let schema ← body.get? "schema"
  let description := match body.get? "description" with
    | some description => [("description", description)]
    | none => []
  let required := if isRequired body then [("required", .bool true)] else []
  some (.obj (description ++ required ++ [("content", contentOf mediaTypes schema)]))

/-- A form field: its name, its schema, and whether it is required. -/
structure FormField where
  name : String
  schema : Keyed Json
  required : Bool
  deriving Inhabited

/-- The form field that a parameter becomes, if it is an object with a name. -/
def FormField.ofParameter? (parameter : Json) : Option FormField := do
  let fields ← parameter.asObject?
  let name ← textAt? "name" parameter
  let (schema, rest) := takeSchema fields
  let schema := match Keyed.get? "description" rest with
    | some description => schema.insert "description" description
    | none => schema
  some ⟨name, schema, isRequired parameter⟩

/-- Does the field hold a file? -/
def FormField.isFile (field : FormField) : Bool :=
  (Keyed.get? "type" field.schema).bind Json.asString? == some "file"

/-- The media type of forms with files. -/
def multipartType : String := "multipart/form-data"

/-- The media type of forms without files. -/
def urlEncodedType : String := "application/x-www-form-urlencoded"

/-- The media type that a form is sent as. -/
def formType (mediaTypes : List String) (fields : List FormField) : String :=
  if fields.any FormField.isFile || mediaTypes.contains multipartType
    || !mediaTypes.contains urlEncodedType then multipartType
  else urlEncodedType

/-- The object schema of a form. -/
def formSchema (fields : List FormField) : Json :=
  let properties := Keyed.ofList (fields.map fun field => (field.name, .obj field.schema))
  let required := (fields.filter FormField.required).map (Json.str ·.name)
  .obj ([("type", .str "object"), ("properties", .obj properties)] ++
    if required.isEmpty then [] else [("required", .arr required)])

/-- The request body that form fields become. -/
def formRequest (mediaTypes : List String) (parameters : List Json) : Json :=
  let fields := parameters.filterMap FormField.ofParameter?
  .obj [("content",
    .obj [(formType mediaTypes fields, .obj [("schema", formSchema fields)])])]

end TypedClient.Swagger
