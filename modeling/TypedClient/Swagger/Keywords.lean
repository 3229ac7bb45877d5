/-
  TypedClient.Swagger.Keywords

  What is renamed at every depth of a Swagger 2.0 document: the references into its sections, and
  the keywords `x-nullable` and `type: file`.
-/
import TypedClient.Json

namespace TypedClient.Swagger

/-- Where references into the sections of a Swagger 2.0 document lead in OpenAPI 3. -/
def referencePrefixes : List (String × String) := [
  ("#/definitions/", "#/components/schemas/"),
  ("#/parameters/", "#/components/parameters/"),
  ("#/responses/", "#/components/responses/")]

/-- The text after a beginning, if it has that beginning. -/
def afterStart? (start text : String) : Option String :=
  if start.toList.isPrefixOf text.toList then
    some (String.ofList (text.toList.drop start.toList.length))
  else none

/-- A reference with its section renamed; any other reference stays as it is. -/
def renameReference (reference : String) : String :=
  (referencePrefixes.findSome? fun (old, new) =>
    (afterStart? old reference).map (new ++ ·)).getD reference

/-- Renames the reference of an object. -/
def renameRef (fields : Keyed Json) : Keyed Json :=
  match Keyed.get? "$ref" fields with
  | some (.str reference) => fields.insert "$ref" (.str (renameReference reference))
  | _ => fields

/-- Turns `x-nullable` into `nullable`. -/
def renameNullable (fields : Keyed Json) : Keyed Json :=
  match Keyed.get? "x-nullable" fields with
  | some (.bool nullable) => (fields.swapErase "x-nullable").insert "nullable" (.bool nullable)
  | _ => fields

/-- Turns the type of files into a text of raw bytes. -/
def renameFile (fields : Keyed Json) : Keyed Json :=
  match Keyed.get? "type" fields with
  | some (.str "file") => (fields.insert "type" (.str "string")).insert "format" (.str "binary")
  | _ => fields

/-- Renames what an object itself holds. -/
def renameFields (fields : Keyed Json) : Keyed Json :=
  renameFile (renameNullable (renameRef fields))

mutual
/-- Renames references and keywords in every object of a value. -/
def upgrade : Json → Json
  | .obj fields => .obj (renameFields (upgradeFields fields))
  | .arr items => .arr (upgradeItems items)
  | value => value

/-- Renames in every item. -/
def upgradeItems : List Json → List Json
  | [] => []
  | item :: rest => upgrade item :: upgradeItems rest

/-- Renames in the value of every field. -/
def upgradeFields : List (String × Json) → List (String × Json)
  | [] => []
  | (key, value) :: rest => (key, upgrade value) :: upgradeFields rest
end

end TypedClient.Swagger
