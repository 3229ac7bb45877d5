/-
  TypedClient.Proofs.Swagger.Order

  Conversion keeps the sequences that show in what is generated: of the paths, of the statuses of
  an operation, of the definitions and of the properties of their schemas.  Fields are taken out of
  the document, of operations and of responses by moving the last field into the gap, and renaming
  does so in any object there is.  But where a name of the document is a key, every value is an
  object, and then nothing is taken out.
-/
import TypedClient.Operation
import TypedClient.Proofs.Swagger.Outcome

namespace TypedClient
namespace Swagger

open Reference (Step LeadsTo)

section

variable {fields schema : Keyed Json} {value : Json} {path : List Step}

/-! ## Maps of objects -/

/-- A map of objects that is reached is found with the same keys in the same sequence. -/
theorem Reaches.keys_eq (h : Reaches value path (.obj fields)) (hvalue : value.Distinct)
    (hfields : HoldsObjects fields) :
    ∃ converted, LeadsTo (Swagger.upgrade value) path (.obj converted) ∧
      Keyed.keys converted = Keyed.keys fields := by
  have hleads := h.upgrade hvalue (by simp [IsPlain])
  rw [upgrade_of_holdsObjects hfields] at hleads
  exact ⟨_, hleads, Keyed.keys_mapValues ..⟩

/-- The responses of an operation by status. -/
def responsesOf (fields : Keyed Json) : Keyed Json := fieldsOf (Keyed.get? "responses" fields)

/-- The upgrade of an operation keeps the sequence of its statuses. -/
theorem keys_responsesOf_upgrade (h : (Keyed.keys fields).Nodup)
    (hresponses : HoldsObjects (responsesOf fields)) :
    Keyed.keys (responsesOf (renameFields (upgradeFields fields))) =
      Keyed.keys (responsesOf fields) := by
  unfold responsesOf at hresponses ⊢
  rw [get?_upgrade h (by decide)]
  cases hvalue : Keyed.get? "responses" fields with
  | none => rfl
  | some value =>
    rw [hvalue] at hresponses
    cases value with
    | obj responses =>
      have hresponses : HoldsObjects responses := hresponses
      rw [Option.map_some, upgrade_of_holdsObjects hresponses]
      exact Keyed.keys_mapValues ..
    | _ => rfl

/-- So does its conversion. -/
theorem keys_responsesOf_operationOf (context : Context) (merged : List Resolved)
    (request : Option Json) (h : (Keyed.keys fields).Nodup)
    (hresponses : HoldsObjects (responsesOf fields)) :
    HoldsObjects (responsesOf (operationOf context fields merged request)) ∧
      Keyed.keys (responsesOf (operationOf context fields merged request)) =
        Keyed.keys (responsesOf fields) := by
  have heq : responsesOf (operationOf context fields merged request) =
      convertResponses (producesOf context fields) (responsesOf fields) := by
    rw [responsesOf, get?_operationOf_responses h]
    rfl
  rw [heq]
  exact ⟨hresponses.mapValues (convertMember_obj _ .responses), Keyed.keys_mapValues ..⟩

/-! ## Schemas in definitions -/

/-- The path leads to a schema, through arrays and maps of objects, and otherwise through any
    keyword but the two whose values are no schemas. -/
inductive SchemaIn : Json → List Step → Keyed Json → Prop
  | here (schema : Keyed Json) : SchemaIn (.obj schema) [] schema
  | keyword {fields schema : Keyed Json} {name : String} {inner : Json} {path : List Step}
      (isKept : name ∉ overwrittenKeys) (found : Keyed.get? name fields = some inner)
      (rest : SchemaIn inner path schema) : SchemaIn (.obj fields) (.key name :: path) schema
  | member {fields schema : Keyed Json} {name : String} {inner : Json} {path : List Step}
      (objects : HoldsObjects fields) (found : Keyed.get? name fields = some inner)
      (rest : SchemaIn inner path schema) : SchemaIn (.obj fields) (.key name :: path) schema
  | item {items : List Json} {schema : Keyed Json} {index : Nat} {inner : Json}
      {path : List Step} (found : items[index]? = some inner)
      (rest : SchemaIn inner path schema) : SchemaIn (.arr items) (.position index :: path) schema

/-- Nothing on the way to a schema is overwritten. -/
theorem SchemaIn.reaches (h : SchemaIn value path schema) :
    Reaches value path (.obj schema) := by
  induction h with
  | here schema => exact .here _
  | keyword isKept found _ ih => exact .key found (not_overwrites isKept) ih
  | member objects found _ ih => exact .key found objects.not_overwrites ih
  | item found _ ih => exact .position found ih

end

/-! ## Documents -/

section

variable {root paths fields : Keyed Json} {output : Json} {path : String}

theorem key_mem_methodKeys_or (method : HttpMethod) :
    method.key ∈ methodKeys ∨ method = .trace := by
  cases method <;> simp [HttpMethod.key, methodKeys]

/-- An operation keeps the sequence of its statuses, if its responses are objects.  That the method
    `trace` is not converted makes no difference. -/
theorem keys_responsesOf_outcomeOf (hdistinct : (Json.obj root).Distinct)
    (hpaths : (Context.of root).paths (Keyed.get? "paths" root) = .ok paths)
    {method : HttpMethod}
    (hoperation : LeadsTo (.obj root) [.key "paths", .key path, .key method.key] (.obj fields))
    (hresponses : HoldsObjects (responsesOf fields)) :
    ∃ operation, LeadsTo (upgrade (.obj (outcomeOf root paths)))
        [.key "paths", .key path, .key method.key] (.obj operation) ∧
      Keyed.keys (responsesOf operation) = Keyed.keys (responsesOf fields) := by
  have houtcome := distinct_outcomeOf hdistinct (distinct_convertedPaths hdistinct hpaths)
  have hnodup := (distinct_of_leadsTo hoperation hdistinct).nodup
  obtain ⟨item, hitem, hfields⟩ : ∃ item, item? (.obj root) path = some (.obj item) ∧
      Keyed.get? method.key item = some (.obj fields) := by
    rcases hoperation with _ | ⟨hvalue, _ | ⟨hitem, _ | ⟨hfields, _ | _⟩⟩⟩
    exact ⟨_, by rw [item?_obj, hvalue]; exact hitem, hfields⟩
  rcases key_mem_methodKeys_or method with hmethod | rfl
  · obtain ⟨merged, hat⟩ := exists_operationAt hdistinct hpaths hmethod hitem hfields
    obtain ⟨request, -, hreaches⟩ := hat.reaches hdistinct hpaths
    obtain ⟨hobjects, hkeys⟩ := keys_responsesOf_operationOf (Context.of root) merged request hnodup
      hresponses
    refine ⟨_, hreaches.upgrade houtcome (by simp [IsPlain]), ?_⟩
    rw [keys_responsesOf_upgrade (nodup_keys_operationOf hnodup request) hobjects, hkeys]
  · obtain ⟨converted, hconverted, hreaches⟩ :=
      reaches_itemField hdistinct hpaths hitem hfields (by decide)
    cases hconverted
    exact ⟨_, hreaches.upgrade houtcome (by simp [IsPlain]),
      keys_responsesOf_upgrade hnodup hresponses⟩

/-- The properties of a schema in the definitions keep their sequence, if they are objects. -/
theorem keys_properties_outcomeOf (hdistinct : (Json.obj root).Distinct)
    (hpaths : (Context.of root).paths (Keyed.get? "paths" root) = .ok paths)
    {definitions schema properties : Keyed Json} {steps : List Step}
    (hdefinitions : Keyed.get? "definitions" root = some (.obj definitions))
    (hschema : SchemaIn (.obj definitions) steps schema)
    (hproperties : Keyed.get? "properties" schema = some (.obj properties))
    (hobjects : HoldsObjects properties) :
    ∃ converted, LeadsTo (upgrade (.obj (outcomeOf root paths)))
        (.key "components" :: .key "schemas" :: (steps ++ [.key "properties"]))
        (.obj converted) ∧
      Keyed.keys converted = Keyed.keys properties := by
  have houtcome := distinct_outcomeOf hdistinct (distinct_convertedPaths hdistinct hpaths)
  have hsection : Reaches (.obj (outcomeOf root paths)) [.key "components", .key "schemas"]
      (.obj definitions) :=
    reaches_section .definitions hdistinct.nodup hdefinitions paths
  have hmap : Reaches (.obj definitions) (steps ++ [.key "properties"]) (.obj properties) :=
    hschema.reaches.trans (.field hproperties (by decide))
  exact (hsection.trans hmap).keys_eq houtcome hobjects

end

/-- Conversion does not reorder what is generated from.  In the outcome of a document the paths
    stand in their sequence.  So do the statuses of each operation whose responses are objects, the
    definitions if they are objects, and the properties of each schema in the definitions, at any
    depth, whose properties are objects. -/
theorem convert_keeps_order {root : Keyed Json} {output : Json}
    (hdistinct : (Json.obj root).Distinct) (hconvert : convert (.obj root) = .ok output) :
    (∃ paths, LeadsTo output [.key "paths"] (.obj paths) ∧
      Keyed.keys paths = Keyed.keys (fieldsOf (Keyed.get? "paths" root))) ∧
    (∀ (path : String) (method : HttpMethod) (fields : Keyed Json),
      LeadsTo (.obj root) [.key "paths", .key path, .key method.key] (.obj fields) →
      HoldsObjects (responsesOf fields) →
      ∃ operation,
        LeadsTo output [.key "paths", .key path, .key method.key] (.obj operation) ∧
        Keyed.keys (responsesOf operation) = Keyed.keys (responsesOf fields)) ∧
    ∀ definitions, Keyed.get? "definitions" root = some (.obj definitions) →
      (HoldsObjects definitions →
        ∃ schemas, LeadsTo output [.key "components", .key "schemas"] (.obj schemas) ∧
          Keyed.keys schemas = Keyed.keys definitions) ∧
      ∀ steps schema properties, SchemaIn (.obj definitions) steps schema →
        Keyed.get? "properties" schema = some (.obj properties) → HoldsObjects properties →
        ∃ converted,
          LeadsTo output (.key "components" :: .key "schemas" :: (steps ++ [.key "properties"]))
            (.obj converted) ∧
          Keyed.keys converted = Keyed.keys properties := by
  have hroot := hdistinct.nodup
  obtain ⟨paths, hpaths, rfl⟩ := (convert_obj_eq_ok_iff hroot).mp hconvert
  have houtcome := distinct_outcomeOf hdistinct (distinct_convertedPaths hdistinct hpaths)
  refine ⟨?_, fun path method fields hoperation hresponses => ?_,
    fun definitions hdefinitions => ⟨fun hobjects => ?_, fun steps schema properties => ?_⟩⟩
  · obtain ⟨converted, hleads, hkeys⟩ :=
      (reaches_paths hroot paths).keys_eq houtcome (holdsObjects_paths hpaths)
    have hsame : Keyed.keys paths = Keyed.keys (fieldsOf (Keyed.get? "paths" root)) :=
      keys_of_forall₂ (paths_eq_ok hpaths) fun _ _ => pathItem_key
    exact ⟨converted, hleads, hkeys.trans hsame⟩
  · exact keys_responsesOf_outcomeOf hdistinct hpaths hoperation hresponses
  · exact (reaches_section .definitions hroot hdefinitions paths).keys_eq houtcome
      hobjects
  · exact keys_properties_outcomeOf hdistinct hpaths hdefinitions

/-- Responses with a schema that is moved. -/
def petResponses : Keyed Json :=
  [("404", .obj []), ("200", .obj [("schema", .obj [])]), ("default", .obj [])]

/-- An operation that a field is taken out of from before its responses. -/
def listPets : Keyed Json := [
  ("consumes", .arr [.str "text/plain"]),
  ("responses", .obj petResponses),
  ("summary", .str "List pets")]

/-- A schema that a field is taken out of from before its properties. -/
def petSchema : Keyed Json := [
  ("x-nullable", .bool true),
  ("properties", .obj [("tag", .obj []), ("name", .obj [("x-nullable", .bool true)])]),
  ("type", .str "object")]

/-- Definitions with this schema. -/
def petDefinitions : Keyed Json :=
  [("Pet", .obj petSchema), ("Age", .obj [("type", .str "integer")])]

/-- The document of this operation and these definitions. -/
def petList : Keyed Json := [
  ("swagger", .str "2.0"),
  ("parameters", .obj []),
  ("paths", .obj [("/pets", .obj [("parameters", .arr []), ("get", .obj listPets)]),
    ("/owners", .obj [])]),
  ("definitions", .obj petDefinitions)]

/-- Fields are taken out around these maps, and not out of them. -/
theorem petList_keeps_order :
    ∃ output, convert (.obj petList) = .ok output ∧
      (∃ paths, LeadsTo output [.key "paths"] (.obj paths) ∧
        Keyed.keys paths = ["/pets", "/owners"]) ∧
      (∃ operation, LeadsTo output [.key "paths", .key "/pets", .key "get"] (.obj operation) ∧
        Keyed.keys (responsesOf operation) = ["404", "200", "default"]) ∧
      (∃ schemas, LeadsTo output [.key "components", .key "schemas"] (.obj schemas) ∧
        Keyed.keys schemas = ["Pet", "Age"]) ∧
      ∃ properties, LeadsTo output
          [.key "components", .key "schemas", .key "Pet", .key "properties"] (.obj properties) ∧
        Keyed.keys properties = ["tag", "name"] := by
  have hdistinct : (Json.obj petList).Distinct := by
    simp [petList, listPets, petResponses, petDefinitions, petSchema, Json.distinct_obj_iff,
      Json.distinct_arr_iff, Keyed.keys, Json.distinct_str, Json.distinct_bool]
  obtain ⟨output, houtput⟩ : ∃ output, convert (.obj petList) = .ok output := ⟨_, rfl⟩
  obtain ⟨hpaths, hoperations, hdefinitions⟩ := convert_keeps_order hdistinct houtput
  have hlist : LeadsTo (.obj petList) [.key "paths", .key "/pets", .key HttpMethod.get.key]
      (.obj listPets) := .key rfl (.key rfl (.key rfl (.here _)))
  have hresponses : HoldsObjects petResponses := by simp [HoldsObjects, petResponses]
  obtain ⟨hschemas, hproperties⟩ := hdefinitions _ rfl
  have hobjects : HoldsObjects petDefinitions := by simp [HoldsObjects, petDefinitions]
  have hpet : SchemaIn (.obj petDefinitions) [.key "Pet"] petSchema :=
    .member hobjects rfl (.here _)
  have hnames : HoldsObjects [("tag", .obj []), ("name", .obj [("x-nullable", .bool true)])] := by
    simp [HoldsObjects]
  exact ⟨output, houtput, hpaths, hoperations _ .get _ hlist hresponses, hschemas hobjects,
    hproperties _ _ _ hpet rfl hnames⟩

end Swagger
end TypedClient
