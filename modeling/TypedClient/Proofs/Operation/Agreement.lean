/-
  TypedClient.Proofs.Operation.Agreement

  Extraction reads a document only through references.  So when two documents give the same
  wherever a reference of the second one leads, an operation of the second one is extracted alike
  with either, and makes the same calls.
-/
import TypedClient.Proofs.Document.Local
import TypedClient.Proofs.Operation.Parameters
import TypedClient.Proofs.Registry.Agreement

namespace TypedClient

open Document
open Registry (Request)

variable {first second : Json}

/-- Every reference of the second document leads to the same object, or to the same further
    reference, in both. -/
def SameObjects {α : Type} (read : Json → Option α) (first second : Json) : Prop :=
  ∀ reference, second.Mentions reference →
    (Reference.resolve first reference).bind (MaybeRef.ofJson? read) =
      (Reference.resolve second reference).bind (MaybeRef.ofJson? read)

/-- Every reference of the second document leads to the same in both, whatever is read there. -/
structure ReadsAlike (first second : Json) : Prop where
  targets : SameTargets first second
  parameters : SameObjects Parameter.ofJson? first second
  bodies : SameObjects RequestBody.ofJson? first second
  responses : SameObjects Response.ofJson? first second

namespace Document

variable {α : Type} {read : Json → Option α} {Holds : α → Prop}

/-- A chain of references ends at the same object. -/
theorem followRef_congr (h : SameObjects read first second) (hops : Nat) {reference : String}
    (hreference : second.Mentions reference) :
    followRef first read hops reference = followRef second read hops reference := by
  induction hops generalizing reference with
  | zero => rfl
  | succ hops ih =>
    have hobject := h reference hreference
    rw [followRef, followRef]
    simp only [Option.bind_eq_bind]
    rw [← Option.bind_assoc, ← Option.bind_assoc, hobject]
    refine Option.bind_congr fun found hfound => ?_
    cases found with
    | item object => rfl
    | ref next =>
      -- The next reference of the chain is written in what this one leads to.
      obtain ⟨value, hvalue, hfound⟩ := Option.bind_eq_some_iff.mp hfound
      have hany : Yields second read fun _ => True := fun _ _ _ _ => trivial
      exact ih (hany.maybeRef value _ (Reference.local_of_resolve hvalue) hfound)

theorem MaybeRef.resolve_congr (h : SameObjects read first second) {written : MaybeRef α}
    (hwritten : written.Local second Holds) :
    written.resolve first read = written.resolve second read := by
  cases written with
  | item object => rfl
  | ref reference => exact followRef_congr h maxHops hwritten

end Document

namespace Operation

variable {shared own : List (MaybeRef Parameter)} {parameter : Parameter}

/-! ## Parameters -/

/-- The parameters that apply to an operation are the same. -/
theorem mergedParameters_congr (h : ReadsAlike first second)
    (hlocal : ∀ parameter ∈ shared ++ own, LocalParameter second parameter) :
    mergedParameters first shared own = mergedParameters second shared own := by
  unfold mergedParameters
  congr 1
  exact List.filterMap_congr fun parameter hparameter =>
    MaybeRef.resolve_congr h.parameters (hlocal parameter hparameter)

/-- The schemas of the parameters that apply to an operation are local. -/
theorem local_of_mem_mergedParameters {document : Json}
    (hlocal : ∀ parameter ∈ shared ++ own, LocalParameter document parameter)
    (h : parameter ∈ mergedParameters document shared own) :
    LocalSchema document parameter.schema := by
  obtain ⟨written, hwritten, hresolve⟩ := List.mem_filterMap.mp (mem_overrideAll h)
  exact yields_parameter.resolve (hlocal written hwritten) hresolve

theorem parameterNode_local {document : Json} (h : LocalSchema document parameter.schema) :
    (parameterNode parameter).Local document := by
  unfold parameterNode
  split
  · next schema hschema => exact SchemaNode.local_ofJson (h schema hschema)
  · rintro schema heq reference hmentions
    cases heq
    refine absurd (hmentions.mono (fun href => by cases href) fun node hnode => ?_)
      Schema.not_mentions_empty
    refine hnode.congr rfl rfl rfl fun composition nodes hnodes => ?_
    cases composition <;> exact hnodes

/-- The object behind a local schema is the same. -/
theorem deepObject?_congr (h : SameTargets first second) {node : SchemaNode}
    (hlocal : node.Local second) : deepObject? first node = deepObject? second node := by
  unfold deepObject?
  refine Option.bind_congr fun schema hschema => ?_
  cases href : schema.ref with
  | none => rfl
  | some reference =>
    dsimp only
    rw [h reference (hlocal.toSchema? hschema reference (.own href))]

/-- The object behind a local schema is local. -/
theorem local_of_deepObject? {document : Json} {node : SchemaNode} {object : Schema}
    (hlocal : node.Local document) (h : deepObject? document node = some object) :
    object.Local document := by
  obtain ⟨schema, hschema, rfl | ⟨reference, htarget⟩⟩ := deepObject?_cases h
  · exact hlocal.toSchema? hschema
  · obtain ⟨target, htarget, hobject⟩ := Option.bind_eq_some_iff.mp htarget
    exact (Schema.local_of_resolveNode htarget).toSchema? hobject

theorem parameterFields_congr (h : SameTargets first second)
    (hlocal : LocalSchema second parameter.schema) :
    parameterFields first parameter = parameterFields second parameter := by
  unfold parameterFields
  dsimp only
  rw [deepObject?_congr h (parameterNode_local hlocal)]

/-- The fields that a parameter adds have local schemas. -/
theorem local_of_mem_parameterFields {document : Json}
    (hlocal : LocalSchema document parameter.schema) {field : String × SchemaNode × Bool}
    (h : field ∈ parameterFields document parameter) : field.2.1.Local document := by
  unfold parameterFields at h
  dsimp only at h
  split at h
  · next object hobject =>
    obtain ⟨⟨key, property⟩, hproperty, rfl⟩ := List.mem_map.mp h
    have hobject := local_of_deepObject? (parameterNode_local hlocal) hobject
    exact hobject.of_holds (.of_getD hproperty)
  · obtain rfl := List.mem_singleton.mp h
    exact parameterNode_local hlocal

namespace ParamsShape

/-- The schemas of the properties are local. -/
def Local (document : Json) (shape : ParamsShape) : Prop :=
  ∀ property ∈ shape.properties, property.2.Local document

variable {document : Json} {shape : ParamsShape}

theorem Local.addFields (h : shape.Local document) {fields : List (String × SchemaNode × Bool)}
    (hfields : ∀ field ∈ fields, field.2.1.Local document) :
    (fields.foldl addField shape).Local document := by
  refine List.foldlRecOn fields addField h fun kept hkept field hfield property hproperty => ?_
  rcases Keyed.mem_insert hproperty with hproperty | rfl
  · exact hkept property hproperty
  · exact hfields field hfield

theorem Local.dropFields (h : shape.Local document) (names : List String) :
    (names.foldl dropField shape).Local document :=
  List.foldlRecOn names dropField h fun _ hkept _ _ property hproperty =>
    hkept property (List.mem_filter.mp hproperty).1

theorem Local.addParameter (h : shape.Local document)
    (hparameter : LocalSchema document parameter.schema) :
    (shape.addParameter document parameter).Local document := by
  have hfields := h.addFields fun _ hfield => local_of_mem_parameterFields hparameter hfield
  unfold ParamsShape.addParameter
  split
  · exact h
  · dsimp only
    split
    · exact hfields
    · exact hfields
    · exact hfields
    · exact hfields.dropFields _

/-- The parameters are folded into the same shape. -/
theorem ofParameters_congr (h : ReadsAlike first second)
    (hlocal : ∀ parameter ∈ shared ++ own, LocalParameter second parameter) :
    ofParameters first shared own = ofParameters second shared own := by
  unfold ofParameters
  rw [mergedParameters_congr h hlocal]
  refine List.foldl_ext _ _ _ fun shape parameter hparameter => ?_
  unfold ParamsShape.addParameter
  rw [parameterFields_congr h.targets (local_of_mem_mergedParameters hlocal hparameter)]

/-- The shape of the parameters of an operation is local. -/
theorem local_ofParameters
    (hlocal : ∀ parameter ∈ shared ++ own, LocalParameter document parameter) :
    (ofParameters document shared own).Local document := by
  have hempty : Local document {} := fun property hproperty => by cases hproperty
  refine List.foldlRecOn _ _ hempty fun shape hshape parameter hparameter => ?_
  exact hshape.addParameter (local_of_mem_mergedParameters hlocal hparameter)

/-- A local shape has a local schema. -/
theorem Local.toSchema (h : shape.Local document) : shape.toSchema.Local document := by
  intro reference hmentions
  cases hmentions with
  | own ref => cases ref
  | inside holds mentions =>
    cases holds with
    | property declared mem =>
      cases declared
      exact h _ mem _ rfl reference mentions
    | additional declared => cases declared
    | item declared => cases declared
    | position declared => cases declared
    | @member composition _ _ declared => cases composition <;> cases declared

end ParamsShape

/-! ## Operations -/

/-- The parts of a written operation, and the parameters of its path, are local. -/
structure Written.Local (document : Json) (written : Written) : Prop where
  raw : written.raw.Local document
  shared : ∀ parameter ∈ written.shared, LocalParameter document parameter

theorem Written.Local.parameters {document : Json} {written : Written}
    (h : written.Local document) :
    ∀ parameter ∈ written.shared ++ written.raw.parameters, LocalParameter document parameter := by
  intro parameter hparameter
  rcases List.mem_append.mp hparameter with hparameter | hparameter
  · exact h.shared parameter hparameter
  · exact h.raw.parameters parameter hparameter

/-- The operations of a document are local to it. -/
theorem local_of_mem_written {document : Json} {written : Written}
    (h : written ∈ Operation.written document) : written.Local document := by
  obtain ⟨path, hpath, h⟩ := List.mem_flatMap.mp h
  cases hpaths : (document.get? "paths").bind Json.asObject? with
  | none =>
    rw [hpaths] at hpath
    cases hpath
  | some paths =>
    rw [hpaths] at hpath
    obtain ⟨value, hvalue, hobject⟩ := Option.bind_eq_some_iff.mp hpaths
    have hlocal : path.2.Local document := by
      cases value with
      | obj fields =>
        cases hobject
        intro reference hmentions
        exact (hmentions.of_field hpath).of_get? hvalue
      | _ => cases hobject
    split at h
    · cases h
    · next item hitem =>
      obtain ⟨raw, hraw, rfl⟩ := List.mem_map.mp h
      have hitem := yields_pathItem path.2 item hlocal hitem
      exact ⟨hitem.operations raw hraw, hitem.parameters⟩

variable {fuel : Nat} {registry : Registry} {schemaId : String}

theorem registerParams_congr (h : ReadsAlike first second) {shape : ParamsShape}
    (hlocal : shape.Local second) :
    registerParams first fuel registry schemaId shape =
      registerParams second fuel registry schemaId shape := by
  unfold registerParams
  rw [Registry.add_congr h.targets fuel registry _ hlocal.toSchema.object]

theorem registerPayload_congr (h : ReadsAlike first second) {body : Option (MaybeRef RequestBody)}
    (hlocal : ∀ written, body = some written → LocalBody second written) :
    registerPayload first fuel registry schemaId body =
      registerPayload second fuel registry schemaId body := by
  cases body with
  | none => rfl
  | some written =>
    have hwritten := hlocal written rfl
    have hadd : ∀ name {schema : Json} (_ : schema.Local second) asStruct,
        registry.add first fuel name (.ofJson schema) asStruct =
          registry.add second fuel name (.ofJson schema) asStruct :=
      fun name schema hschema =>
        Registry.add_congr h.targets fuel registry name (SchemaNode.local_ofJson hschema)
    unfold registerPayload
    rw [Option.bind_some, Option.bind_some, MaybeRef.resolve_congr h.bodies hwritten]
    split
    · rfl
    · next object hobject =>
      have hcontent : LocalContent second object.content :=
        yields_body.resolve hwritten hobject
      split
      · next schema hschema => rw [hadd _ (hcontent.jsonSchema? hschema)]
      · next schema _ hform => rw [hadd _ (hcontent _ (Keyed.mem_of_get? hform) schema rfl)]
      · rfl
      · rfl

/-- A response is registered alike. -/
theorem register_congr (h : ReadsAlike first second) {response : String × MaybeRef Response}
    (hlocal : LocalResponse second response.2) (state : Responses × Registry) :
    Responses.register first fuel schemaId state response =
      Responses.register second fuel schemaId state response := by
  unfold Responses.register
  dsimp only
  rw [MaybeRef.resolve_congr h.responses hlocal]
  split
  · rfl
  · rfl
  · next description content hobject =>
    have hcontent : LocalContent second content :=
      yields_response.resolve hlocal hobject content rfl
    split
    · rfl
    · next schema hschema =>
      rw [Registry.add_congr h.targets fuel state.2 _
        (SchemaNode.local_ofJson (hcontent.jsonSchema? hschema))]

/-- An operation of the second document is extracted alike. -/
theorem extractWritten_congr (h : ReadsAlike first second) {written : Written}
    (hlocal : written.Local second) (state : Extraction) :
    extractWritten first fuel state written = extractWritten second fuel state written := by
  have hextract : ∀ registry ids,
      extract first fuel registry ids written.path written.method written.raw written.shared =
        extract second fuel registry ids written.path written.method written.raw
          written.shared := by
    intro registry ids
    unfold extract
    dsimp only
    rw [ParamsShape.ofParameters_congr h hlocal.parameters,
      registerParams_congr h (ParamsShape.local_ofParameters hlocal.parameters)]
    refine Option.bind_congr fun params _ => ?_
    rw [registerPayload_congr h hlocal.raw.requestBody]
    refine Option.bind_congr fun payload _ => ?_
    rw [foldlM_congr fun response hresponse state =>
      register_congr h (hlocal.raw.responses response hresponse) state]
  unfold extractWritten extractNext
  dsimp only
  rw [hextract]

/-! ## Calls -/

/-- The calls of an operation are the same. -/
theorem Reading.requests_congr (h : ReadsAlike first second) {reading : Reading}
    (hlocal : reading.written.Local second) : reading.requests first = reading.requests second := by
  have hbody : bodyRequest? first reading.schemaId reading.written.raw.requestBody =
      bodyRequest? second reading.schemaId reading.written.raw.requestBody := by
    unfold bodyRequest?
    cases hwritten : reading.written.raw.requestBody with
    | none => rfl
    | some written =>
      rw [Option.bind_some, Option.bind_some,
        MaybeRef.resolve_congr h.bodies (hlocal.raw.requestBody written hwritten)]
  have hresponses : ∀ response ∈ reading.written.raw.responses,
      responseRequest? first reading.schemaId response =
        responseRequest? second reading.schemaId response := by
    intro response hresponse
    unfold responseRequest?
    rw [MaybeRef.resolve_congr h.responses (hlocal.raw.responses response hresponse)]
  unfold Reading.requests Reading.paramsShape
  rw [ParamsShape.ofParameters_congr h hlocal.parameters, hbody, List.filterMap_congr hresponses]

/-- The calls of a local operation have local schemas. -/
theorem Reading.local_of_mem_requests {document : Json} {reading : Reading}
    (hlocal : reading.written.Local document) {request : Request}
    (h : request ∈ reading.requests document) : request.root.Local document := by
  unfold Reading.requests at h
  rw [List.mem_append, List.mem_append, Option.mem_toList, Option.mem_toList] at h
  rcases h with (hparams | hbody) | hresponse
  · unfold paramsRequest? at hparams
    split at hparams
    · cases hparams
    · cases hparams
      exact (ParamsShape.local_ofParameters hlocal.parameters).toSchema.object
  · unfold bodyRequest? at hbody
    split at hbody
    · cases hbody
    · next body hresolve =>
      obtain ⟨written, hwritten, hresolve⟩ := Option.bind_eq_some_iff.mp hresolve
      have hcontent : LocalContent document body.content :=
        yields_body.resolve (hlocal.raw.requestBody written hwritten) hresolve
      split at hbody
      · next schema hschema =>
        cases hbody
        exact SchemaNode.local_ofJson (hcontent.jsonSchema? hschema)
      · next schema _ hform =>
        cases hbody
        exact SchemaNode.local_ofJson (hcontent _ (Keyed.mem_of_get? hform) schema rfl)
      · cases hbody
  · obtain ⟨response, hmem, hresponse⟩ := List.mem_filterMap.mp hresponse
    unfold responseRequest? at hresponse
    split at hresponse
    · next description content hresolve =>
      obtain ⟨schema, hschema, rfl⟩ := Option.map_eq_some_iff.mp hresponse
      have hcontent : LocalContent document content :=
        yields_response.resolve (hlocal.raw.responses response hmem) hresolve content rfl
      exact SchemaNode.local_ofJson (hcontent.jsonSchema? hschema)
    · cases hresponse

end Operation
end TypedClient
