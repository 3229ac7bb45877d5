/-
  TypedClient.Proofs.Swagger.Places

  Where the parameters, headers, form fields and schemas of a document are found in the outcome.
  Each kind moves to a place of its own: one relation for each says which, and a lemma shows that
  what the upgrade starts from is there.
-/
import TypedClient.Proofs.Swagger.Keywords
import TypedClient.Proofs.Swagger.Outcome

namespace TypedClient
namespace Swagger

open Reference (Step LeadsTo)

/-! ## Requests -/

section

variable {mediaTypes : List String} {merged : List Resolved} {path method : String}

/-- The last body makes up the request. -/
theorem requestOf_of_lastBody {request : Option Json} {body : Json}
    (h : requestOf mediaTypes merged path method = .ok request) (hbody : LastBody merged body) :
    ∃ inner, bodyRequest? mediaTypes body = some inner ∧ request = some inner := by
  rw [lastBody_iff] at hbody
  unfold requestOf at h
  dsimp only at h
  rw [hbody] at h
  dsimp only at h
  split at h
  · next inner hinner => exact ⟨inner, hinner, (Except.ok.inj h).symm⟩
  · cases h

/-- The request of a body has its schema under each media type. -/
theorem reaches_bodyRequest? {body request schema : Json} {mediaType : String}
    (h : bodyRequest? mediaTypes body = some request) (hschema : body.get? "schema" = some schema)
    (hmediaType : mediaType ∈ mediaTypes) :
    Reaches request [.key "content", .key mediaType, .key "schema"] schema := by
  obtain ⟨inner, hinner, h⟩ := Option.bind_eq_some_iff.mp h
  rw [hschema] at hinner
  cases hinner
  have hcontent : Reaches request [.key "content"] (contentOf mediaTypes schema) := by
    rw [← Option.some.inj h]
    refine .field ?_ (by decide)
    cases body.get? "description" <;> cases isRequired body <;> rfl
  exact hcontent.trans (reaches_contentOf hmediaType schema)

/-- The request of form fields has the schema of each under its name. -/
theorem reaches_formRequest {parameters : List Json} {parameter : Json} {field : FormField}
    (hnodup : (parameters.map (textAt? "name")).Nodup) (hmem : parameter ∈ parameters)
    (hfield : FormField.ofParameter? parameter = some field) :
    Reaches (formRequest mediaTypes parameters)
      [.key "content",
        .key (formType mediaTypes (parameters.filterMap FormField.ofParameter?)), .key "schema",
        .key "properties", .key field.name] (.obj field.schema) := by
  have hnames := nodup_names_of_parameters hnodup
  have hin : field ∈ parameters.filterMap FormField.ofParameter? :=
    List.mem_filterMap.mpr ⟨parameter, hmem, hfield⟩
  unfold formRequest
  generalize parameters.filterMap FormField.ofParameter? = fields at hnames hin ⊢
  rw [← keys_schemas] at hnames
  have hproperty : Keyed.get? field.name (Keyed.ofList (fields.map fun field =>
      (field.name, Json.obj field.schema))) = some (.obj field.schema) := by
    rw [Keyed.ofList_of_nodup hnames]
    exact Keyed.get?_of_mem hnames (List.mem_map.mpr ⟨field, hin, rfl⟩)
  -- The media type is told from the fields, so that its key is kept for what stands under it.
  have hcontent : HoldsObjects [(formType mediaTypes fields,
      Json.obj [("schema", formSchema fields)])] := by
    intro entry hentry
    rw [List.mem_singleton.mp hentry]
    exact ⟨_, rfl⟩
  have hmediaType : Keyed.get? (formType mediaTypes fields) [(formType mediaTypes fields,
      Json.obj [("schema", formSchema fields)])] = some (.obj [("schema", formSchema fields)]) := by
    rw [Keyed.get?_singleton, if_pos rfl]
  have hproperties : Reaches (formSchema fields) [.key "properties", .key field.name]
      (.obj field.schema) :=
    .key rfl (not_overwrites (by decide)) (.member hproperty (holdsObjects_schemas fields).ofList)
  exact .key rfl (not_overwrites (by decide)) <| .key hmediaType hcontent.not_overwrites <|
    .key rfl (not_overwrites (by decide)) hproperties

end

/-! ## Places -/

/-- The document has this response, given in these media types, and the path leads to the place that
    it is converted for. -/
inductive ResponseAt (root : Keyed Json) : List Step → List String → Keyed Json → Prop
  | operation {path method status : String} {fields responses response : Keyed Json}
      {merged : List Resolved} (operation : OperationAt root path method fields merged)
      (given : Keyed.get? "responses" fields = some (.obj responses))
      (found : Keyed.get? status responses = some (.obj response))
      (kept : ¬ Overwrites responses status) :
      ResponseAt root [.key "paths", .key path, .key method, .key "responses", .key status]
        (producesOf (Context.of root) fields) response
  | global {name : String} {responses response : Keyed Json}
      (given : Keyed.get? "responses" root = some (.obj responses))
      (found : Keyed.get? name responses = some (.obj response))
      (kept : ¬ Overwrites responses name) :
      ResponseAt root [.key "components", .key "responses", .key name]
        (Context.of root).produces response

/-- The document has this parameter or header, written in place and neither a body nor a form
    field, and the path leads to the place that it is converted for. -/
inductive HolderAt (root : Keyed Json) : List Step → Keyed Json → Prop
  | parameter {path method : String} {fields holder : Keyed Json} {merged : List Resolved}
      {index : Nat} (operation : OperationAt root path method fields merged)
      (inline : (plainParameters merged)[index]? = some (.obj holder, none)) :
      HolderAt root
        [.key "paths", .key path, .key method, .key "parameters", .position index] holder
  | global {name : String} {parameters holder : Keyed Json}
      (given : Keyed.get? "parameters" root = some (.obj parameters))
      (found : Keyed.get? name parameters = some (.obj holder))
      (keeps : Section.parameters.keeps (.obj holder) = true)
      (kept : ¬ Overwrites parameters name) :
      HolderAt root [.key "components", .key "parameters", .key name] holder
  | header {place : List Step} {produces : List String} {response headers holder : Keyed Json}
      {name : String} (isResponse : ResponseAt root place produces response)
      (inline : Keyed.get? "$ref" response = none)
      (given : Keyed.get? "headers" response = some (.obj headers))
      (found : Keyed.get? name headers = some (.obj holder))
      (kept : ¬ Overwrites headers name) :
      HolderAt root (place ++ [.key "headers", .key name]) holder

/-- The document has this form field, and the path leads to the place that its schema is made
    for. -/
inductive FieldAt (root : Keyed Json) : List Step → Keyed Json → Prop
  | field {path method name : String} {fields holder : Keyed Json} {merged : List Resolved}
      (operation : OperationAt root path method fields merged)
      (noBody : ¬ ∃ parameter ∈ merged, isBody parameter.1 = true)
      (isField : .obj holder ∈ formFields merged)
      (named : textAt? "name" (.obj holder) = some name) :
      FieldAt root
        [.key "paths", .key path, .key method, .key "requestBody", .key "content",
          .key (formType (consumesOf (Context.of root) fields)
            ((formFields merged).filterMap FormField.ofParameter?)),
          .key "schema", .key "properties", .key name] holder

/-- The document has this schema, or these definitions, and the path leads to the place that it is
    moved to. -/
inductive SchemaAt (root : Keyed Json) : List Step → Json → Prop
  | definitions {definitions : Json}
      (given : Keyed.get? "definitions" root = some definitions) :
      SchemaAt root [.key "components", .key "schemas"] definitions
  | body {path method mediaType : String} {fields : Keyed Json} {merged : List Resolved}
      {body schema : Json} (operation : OperationAt root path method fields merged)
      (isLast : LastBody merged body) (given : body.get? "schema" = some schema)
      (consumed : mediaType ∈ consumesOf (Context.of root) fields) :
      SchemaAt root
        [.key "paths", .key path, .key method, .key "requestBody", .key "content",
          .key mediaType, .key "schema"] schema
  | response {place : List Step} {produces : List String} {response : Keyed Json}
      {mediaType : String} {schema : Json} (isResponse : ResponseAt root place produces response)
      (inline : Keyed.get? "$ref" response = none)
      (given : Keyed.get? "schema" response = some schema) (produced : mediaType ∈ produces) :
      SchemaAt root (place ++ [.key "content", .key mediaType, .key "schema"]) schema
  | holderItems {place : List Step} {holder : Keyed Json} {items : Json}
      (isHolder : HolderAt root place holder) (given : Keyed.get? "items" holder = some items) :
      SchemaAt root (place ++ [.key "schema", .key "items"]) items
  | fieldItems {place : List Step} {holder : Keyed Json} {items : Json}
      (isField : FieldAt root place holder) (given : Keyed.get? "items" holder = some items) :
      SchemaAt root (place ++ [.key "items"]) items

/-! ## What is found there -/

section

variable {root paths fields response holder : Keyed Json} {merged : List Resolved}
  {path method : String} {place : List Step} {produces : List String}

theorem convertHeader_of_isPlain {value : Json}
    (h : IsPlain value ∨ IsPlain (convertHeader value)) : convertHeader value = value := by
  cases value with
  | obj fields => exact absurd h (by simp [IsPlain, convertHeader])
  | _ => rfl

theorem OperationAt.distinct_merged (h : OperationAt root path method fields merged)
    (hdistinct : (Json.obj root).Distinct) : ∀ parameter ∈ merged, parameter.1.Distinct := by
  obtain ⟨item, hitem, -, hmerged⟩ := h.isMerged
  refine hmerged.distinct (distinct_fieldsOf fun _ hinner => hdistinct.of_get? hinner) ?_
  intro parameter hparameter
  rcases List.mem_append.mp hparameter with hparameter | hparameter
  · refine distinct_of_mem_itemsOf (fun _ hinner => ?_) hparameter
    exact (distinct_of_item? hdistinct hitem).of_get? hinner
  · exact distinct_of_mem_itemsOf (fun _ hinner => (h.distinct hdistinct).of_get? hinner) hparameter

theorem ResponseAt.distinct (h : ResponseAt root place produces response)
    (hdistinct : (Json.obj root).Distinct) : (Json.obj response).Distinct := by
  cases h with
  | operation operation given found =>
    have hresponses : (Json.obj _).Distinct := (operation.distinct hdistinct).of_get? given
    exact hresponses.of_get? found
  | global given found =>
    have hresponses : (Json.obj _).Distinct := hdistinct.of_get? given
    exact hresponses.of_get? found

/-- A response is reached converted at its place. -/
theorem ResponseAt.reaches (h : ResponseAt root place produces response)
    (hdistinct : (Json.obj root).Distinct)
    (hpaths : (Context.of root).paths (Keyed.get? "paths" root) = .ok paths) :
    Reaches (.obj (outcomeOf root paths)) place (convertResponse produces (.obj response)) := by
  cases h with
  | @operation _ _ status fields responses _ _ operation given found kept =>
    have hresponses := operation.reaches_responses hdistinct hpaths
    rw [given] at hresponses
    have hkept : ¬ Overwrites (convertResponses (producesOf (Context.of root) fields) responses)
        status :=
      (overwrites_mapValues_iff fun _ => convertMember_of_isPlain .responses).not.mpr kept
    refine hresponses.trans (.key ?_ hkept (.here _))
    rw [convertResponses, Keyed.get?_mapValues]
    exact congrArg (Option.map _) found
  | global given found kept => exact reaches_member .responses hdistinct given found rfl kept paths

theorem HolderAt.distinct (h : HolderAt root place holder)
    (hdistinct : (Json.obj root).Distinct) : (Json.obj holder).Distinct := by
  cases h with
  | parameter operation inline =>
    have hmem := List.mem_of_getElem? inline
    exact operation.distinct_merged hdistinct _ (List.mem_filter.mp hmem).1
  | global given found =>
    have hparameters : (Json.obj _).Distinct := hdistinct.of_get? given
    exact hparameters.of_get? found
  | header isResponse inline given found =>
    have hheaders : (Json.obj _).Distinct := (isResponse.distinct hdistinct).of_get? given
    exact hheaders.of_get? found

/-- A parameter or a header is reached at its place, with its keywords moved into a schema. -/
theorem HolderAt.reaches (h : HolderAt root place holder) (hdistinct : (Json.obj root).Distinct)
    (hpaths : (Context.of root).paths (Keyed.get? "paths" root) = .ok paths) :
    ∃ converted, Nests holder converted ∧
      Reaches (.obj (outcomeOf root paths)) place (.obj converted) := by
  have hnodup := (h.distinct hdistinct).nodup
  cases h with
  | @parameter _ _ fields _ merged index operation inline =>
    obtain ⟨request, -, hreaches⟩ := operation.reaches hdistinct hpaths
    have hkept : (keptParameters merged)[index]? =
        some (.obj (convertListFormat (nestSchema holder))) := by
      show ((plainParameters merged).map keptParameter)[index]? = _
      rw [List.getElem?_map, inline]
      rfl
    have hparameters : Keyed.get? "parameters" (operationOf (Context.of root) fields merged
        request) = some (.arr (keptParameters merged)) := by
      rw [get?_operationOf_parameters (operation.distinct hdistinct).nodup, if_neg]
      intro hempty
      rw [List.isEmpty_iff.mp hempty] at hkept
      cases hkept
    exact ⟨_, nests_parameter hnodup,
      hreaches.trans (.key hparameters (not_overwrites (by decide)) (.position hkept (.here _)))⟩
  | global given found keeps kept =>
    exact ⟨_, nests_parameter hnodup,
      reaches_member .parameters hdistinct given found keeps kept paths⟩
  | @header _ _ _ headers _ name isResponse inline given found kept =>
    have hheader : Keyed.get? name (Keyed.mapValues convertHeader headers) =
        some (.obj (nestSchema holder)) := by
      rw [Keyed.get?_mapValues, found]
      rfl
    have hkept : ¬ Overwrites (Keyed.mapValues convertHeader headers) name :=
      (overwrites_mapValues_iff fun _ => convertHeader_of_isPlain).not.mpr kept
    have hresponse := (isResponse.distinct hdistinct).nodup
    exact ⟨_, nests_nestSchema hnodup, (isResponse.reaches hdistinct hpaths).trans
      ((reaches_headers hresponse inline given).trans (.key hheader hkept (.here _)))⟩

/-- The schema of a form field is reached at its place: but for a description it has the keywords
    of the field only. -/
theorem FieldAt.reaches (h : FieldAt root place holder) (hdistinct : (Json.obj root).Distinct)
    (hpaths : (Context.of root).paths (Keyed.get? "paths" root) = .ok paths) :
    ∃ schema, (∀ key, key ≠ "description" → Keyed.get? key schema =
        if key ∈ schemaKeywords then Keyed.get? key holder else none) ∧
      Reaches (.obj (outcomeOf root paths)) place (.obj schema) := by
  cases h with
  | @field _ _ name fields _ merged operation noBody isField named =>
    obtain ⟨field, hfield, rfl, -⟩ := ofParameter?_of_named named
    obtain ⟨parameter, hparameter, hholder⟩ :=
      List.mem_map.mp (List.mem_filter.mp isField).1
    have hdistinctHolder := operation.distinct_merged hdistinct parameter hparameter
    rw [hholder] at hdistinctHolder
    have hnodup := hdistinctHolder.nodup
    obtain ⟨request, hrequest, hreaches⟩ := operation.reaches_request hdistinct hpaths
    obtain ⟨_, _, _, hmerged⟩ := operation.isMerged
    rcases requestOf_cases hrequest with ⟨hbody, -⟩ | ⟨-, rfl⟩
    · exact absurd hbody noBody
    · rw [if_neg fun hempty => List.ne_nil_of_mem isField (List.isEmpty_iff.mp hempty)] at hreaches
      exact ⟨field.schema, fun key hkey => get?_schema_ofParameter? hnodup hfield hkey,
        (hreaches _ rfl).trans (reaches_formRequest (nodup_formFields hmerged) isField hfield)⟩

/-- A schema is reached at its place as it is. -/
theorem SchemaAt.reaches {schema : Json} (h : SchemaAt root place schema)
    (hdistinct : (Json.obj root).Distinct)
    (hpaths : (Context.of root).paths (Keyed.get? "paths" root) = .ok paths) :
    Reaches (.obj (outcomeOf root paths)) place schema := by
  cases h with
  | definitions given =>
    exact reaches_section .definitions hdistinct.nodup given paths
  | body operation isLast given consumed =>
    obtain ⟨request, hrequest, hreaches⟩ := operation.reaches_request hdistinct hpaths
    obtain ⟨inner, hinner, rfl⟩ := requestOf_of_lastBody hrequest isLast
    exact (hreaches inner rfl).trans (reaches_bodyRequest? hinner given consumed)
  | response isResponse inline given produced =>
    exact (isResponse.reaches hdistinct hpaths).trans (reaches_content inline given produced)
  | holderItems isHolder given =>
    obtain ⟨converted, hnests, hreaches⟩ := isHolder.reaches hdistinct hpaths
    have hnodup := (isHolder.distinct hdistinct).nodup
    have hschema := hnests.schema fun hbare => by
      rw [hbare "items" (by decide)] at given
      cases given
    refine hreaches.trans ((Reaches.field hschema (by decide)).trans (.field ?_ (by decide)))
    rw [(takes_takeSchema hnodup).schema, if_pos (by decide), given]
  | fieldItems isField given =>
    obtain ⟨converted, hget, hreaches⟩ := isField.reaches hdistinct hpaths
    refine hreaches.trans (.field ?_ (by decide))
    rw [hget _ (by decide), if_pos (by decide), given]

end

end Swagger
end TypedClient
