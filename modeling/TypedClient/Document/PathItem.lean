/-
  TypedClient.Document.PathItem

  The objects of a description that operations are read from. Reading one fails as a whole when
  a part has the wrong shape; schemas stay unread, so that a malformed one fails on its own.

  An object may be written as an array of its fields in their order. Keys that are not fields are
  ignored, and `null` stands for an absent field only where the field may be absent.
-/
import TypedClient.Operation
import TypedClient.Reference
import TypedClient.Text.Blank

namespace TypedClient.Document

/-- Either an object or a reference to one. -/
inductive MaybeRef (α : Type) where
  | ref (reference : String)
  | item (item : α)
  deriving Inhabited

/-- What a media type says. -/
structure MediaType where
  schema : Option Json := none
  deriving Inhabited

/-- A parameter of an operation. -/
structure Parameter where
  name : String
  location : String
  required : Bool := false
  schema : Option Json := none
  deriving Inhabited

/-- The body of a request, by media type. -/
structure RequestBody where
  content : Keyed MediaType := []
  deriving Inhabited

/-- A response; one without a body has no content. -/
structure Response where
  description : Option String := none
  content : Option (Keyed MediaType) := none
  deriving Inhabited

/-- An operation as it is written. -/
structure RawOperation where
  operationId : Option String := none
  summary : Option String := none
  description : Option String := none
  parameters : List (MaybeRef Parameter) := []
  requestBody : Option (MaybeRef RequestBody) := none
  responses : Keyed (MaybeRef Response) := []
  deriving Inhabited

/-- A path with an operation for each of some methods, and the parameters they share. -/
structure PathItem where
  operation? : HttpMethod → Option RawOperation := fun _ => none
  parameters : List (MaybeRef Parameter) := []
  deriving Inhabited

/-- Operations of a path in the order of the methods. -/
def PathItem.operations (item : PathItem) : List (HttpMethod × RawOperation) :=
  HttpMethod.all.filterMap fun method => (item.operation? method).map (method, ·)

/-! ## Reading fields -/

/-- The values of the fields with these names, each if it is there. -/
def fieldsOf? (names : List String) : Json → Option (List (Option Json))
  | .obj fields => some (names.map (Keyed.get? · fields))
  | .arr items =>
    if names.length < items.length then none
    else some (items.map some ++ List.replicate (names.length - items.length) none)
  | _ => none

/-- A field with a value for when it is absent. -/
def orDefault {α : Type} (read : Json → Option α) (default : α) : Option Json → Option α
  | none => some default
  | some value => read value

/-- A field that may be absent or `null`. -/
def orNothing {α : Type} (read : Json → Option α) : Option Json → Option (Option α)
  | none => some none
  | some .null => some none
  | some value => (read value).map some

/-- A list. -/
def listOf? {α : Type} (read : Json → Option α) : Json → Option (List α)
  | .arr items => items.mapM read
  | _ => none

/-- A map from keys. -/
def mapOf? {α : Type} (read : Json → Option α) : Json → Option (Keyed α)
  | .obj fields => fields.mapM fun (key, value) => (read value).map (key, ·)
  | _ => none

/-- A reference, or an object that is not one. -/
def MaybeRef.ofJson? {α : Type} (read : Json → Option α) (value : Json) : Option (MaybeRef α) :=
  match (value.get? "$ref").bind Json.asString? with
  | some reference => some (.ref reference)
  | none => (read value).map .item

/-! ## Objects -/

/-- A media type. -/
def MediaType.ofJson? (value : Json) : Option MediaType :=
  match fieldsOf? ["schema"] value with
  | some [schema] => do some ⟨← orNothing some schema⟩
  | _ => none

/-- A parameter. Its name and its location have to be there, and so has its schema when it is
    written as an array. -/
def Parameter.ofJson? (value : Json) : Option Parameter :=
  let isComplete := match value with
    | .arr items => items.length == 4
    | _ => true
  match fieldsOf? ["name", "in", "required", "schema"] value with
  | some [some name, some location, required, schema] =>
    if isComplete then do
      some ⟨← name.asString?, ← location.asString?, ← orDefault Json.asBool? false required,
        ← orNothing some schema⟩
    else none
  | _ => none

/-- A request body. -/
def RequestBody.ofJson? (value : Json) : Option RequestBody :=
  match fieldsOf? ["content"] value with
  | some [content] => do some ⟨← orDefault (mapOf? MediaType.ofJson?) [] content⟩
  | _ => none

/-- A response. -/
def Response.ofJson? (value : Json) : Option Response :=
  match fieldsOf? ["description", "content"] value with
  | some [description, content] => do
    some ⟨← orNothing Json.asString? description,
      ← orNothing (mapOf? MediaType.ofJson?) content⟩
  | _ => none

/-- A list of parameters or references to some. -/
def parametersOf? (value : Option Json) : Option (List (MaybeRef Parameter)) :=
  orDefault (listOf? (MaybeRef.ofJson? Parameter.ofJson?)) [] value

/-- An operation. -/
def RawOperation.ofJson? (value : Json) : Option RawOperation :=
  match fieldsOf?
    ["operationId", "summary", "description", "parameters", "requestBody", "responses"] value with
  | some [operationId, summary, description, parameters, requestBody, responses] => do
    some {
      operationId := ← orNothing Json.asString? operationId
      summary := ← orNothing Json.asString? summary
      description := ← orNothing Json.asString? description
      parameters := ← parametersOf? parameters
      requestBody := ← orNothing (MaybeRef.ofJson? RequestBody.ofJson?) requestBody
      responses := ← orDefault (mapOf? (MaybeRef.ofJson? Response.ofJson?)) [] responses }
  | _ => none

/-- A path item. -/
def PathItem.ofJson? (value : Json) : Option PathItem :=
  match fieldsOf? (HttpMethod.all.map HttpMethod.key ++ ["parameters"]) value with
  | some [get, put, post, delete, options, head, patch, trace, parameters] => do
    let get ← orNothing RawOperation.ofJson? get
    let put ← orNothing RawOperation.ofJson? put
    let post ← orNothing RawOperation.ofJson? post
    let delete ← orNothing RawOperation.ofJson? delete
    let options ← orNothing RawOperation.ofJson? options
    let head ← orNothing RawOperation.ofJson? head
    let patch ← orNothing RawOperation.ofJson? patch
    let trace ← orNothing RawOperation.ofJson? trace
    let parameters ← parametersOf? parameters
    let operation? : HttpMethod → Option RawOperation
      | .get => get
      | .put => put
      | .post => post
      | .delete => delete
      | .options => options
      | .head => head
      | .patch => patch
      | .trace => trace
    some ⟨operation?, parameters⟩
  | _ => none

/-! ## References -/

/-- The longest chain of references that is followed. -/
def maxHops : Nat := 16

/-- The object at the end of a chain of at most `hops` references that starts with `reference`. -/
def followRef {α : Type} (document : Json) (read : Json → Option α) :
    Nat → String → Option α
  | 0, _ => none
  | hops + 1, reference => do
    let value ← Reference.resolve document reference
    match ← MaybeRef.ofJson? read value with
    | .item object => some object
    | .ref next => followRef document read hops next

/-- The object itself, or the one that the reference leads to. -/
def MaybeRef.resolve {α : Type} (document : Json) (read : Json → Option α) :
    MaybeRef α → Option α
  | .item object => some object
  | .ref start => followRef document read maxHops start

/-! ## Media types -/

/-- Is this JSON, by name or by the suffix of its structure? What follows a semicolon and blanks
    around the name do not count, and neither does the case of ASCII letters. -/
def isJsonMediaType (mediaType : String) : Bool :=
  let essence := (Text.trimChars (mediaType.toList.takeWhile (· != ';'))).map Char.toLower
  essence == "application/json".toList || "+json".toList.isSuffixOf essence

/-- The schema of the first JSON media type that has one. -/
def jsonSchema? (content : Keyed MediaType) : Option Json :=
  (content.filter (isJsonMediaType ·.1)).findSome? (·.2.schema)

end TypedClient.Document
