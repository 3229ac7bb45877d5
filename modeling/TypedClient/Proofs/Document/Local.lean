/-
  TypedClient.Proofs.Document.Local

  What is read out of a document has no references of its own: those of an operation, of the
  parameters, bodies and responses in it, and of their schemas are all written in the document.
  There is one lemma for each way in which a field is read, and one for each kind of object.
-/
import TypedClient.Document.PathItem
import TypedClient.Proofs.Schema.Mentions

namespace TypedClient

variable {document : Json}

/-- The references that the value mentions are references of the document. -/
def Json.Local (value document : Json) : Prop :=
  ∀ reference, value.Mentions reference → document.Mentions reference

theorem Json.Local.of_get? {value inner : Json} {key : String} (h : value.Local document)
    (hinner : value.get? key = some inner) : inner.Local document :=
  fun reference hmentions => h reference (hmentions.of_get? hinner)

/-- The target of a reference is local. -/
theorem Reference.local_of_resolve {target : Json} {reference : String}
    (h : resolve document reference = some target) : target.Local document :=
  fun _ hmentions => mentions_of_resolve h hmentions

namespace Document

/-! ## Ways of reading -/

/-- Whatever is read from a local value has the property. -/
def Yields {α : Type} (document : Json) (read : Json → Option α) (Holds : α → Prop) : Prop :=
  ∀ value item, value.Local document → read value = some item → Holds item

/-- A reference is one of the document, and an object has the property. -/
def MaybeRef.Local {α : Type} (document : Json) (Holds : α → Prop) : MaybeRef α → Prop
  | .ref reference => document.Mentions reference
  | .item object => Holds object

section

variable {α : Type} {read : Json → Option α} {Holds : α → Prop}

/-- A field is read from a key of an object, or from an item of a list. -/
theorem standsIn_of_fieldsOf? {names : List String} {value field : Json}
    {fields : List (Option Json)} (hfields : fieldsOf? names value = some fields)
    (hfield : some field ∈ fields) :
    (∃ key, value.get? key = some field) ∨ ∃ items, value = .arr items ∧ field ∈ items := by
  cases value with
  | obj pairs =>
    cases hfields
    obtain ⟨name, -, hname⟩ := List.mem_map.mp hfield
    exact Or.inl ⟨name, hname⟩
  | arr items =>
    unfold fieldsOf? at hfields
    dsimp only at hfields
    split at hfields
    · cases hfields
    · cases hfields
      -- What the items are too few for is absent.
      rcases List.mem_append.mp hfield with hfield | hfield
      · obtain ⟨item, hitem, heq⟩ := List.mem_map.mp hfield
        cases heq
        exact Or.inr ⟨items, rfl, hitem⟩
      · cases List.eq_of_mem_replicate hfield
  | null | bool _ | num _ | str _ => cases hfields

/-- The fields of a local value are local. -/
theorem local_of_fieldsOf? {names : List String} {value field : Json}
    {fields : List (Option Json)} (h : value.Local document)
    (hfields : fieldsOf? names value = some fields) (hfield : some field ∈ fields) :
    field.Local document := by
  rcases standsIn_of_fieldsOf? hfields hfield with ⟨key, hkey⟩ | ⟨items, rfl, hitem⟩
  · exact h.of_get? hkey
  · exact fun reference hmentions => h reference (hmentions.of_item hitem)

theorem Yields.orDefault (h : Yields document read Holds) {default item : α}
    (hdefault : Holds default) {field : Option Json}
    (hfield : ∀ value, field = some value → value.Local document)
    (hitem : orDefault read default field = some item) : Holds item := by
  cases field with
  | none =>
    cases hitem
    exact hdefault
  | some value => exact h value item (hfield value rfl) hitem

theorem Yields.orNothing (h : Yields document read Holds) {found : Option α}
    {field : Option Json} (hfield : ∀ value, field = some value → value.Local document)
    (hfound : orNothing read field = some found) {item : α} (hitem : found = some item) :
    Holds item := by
  unfold Document.orNothing at hfound
  split at hfound
  -- An absent field and `null` give nothing.
  · cases hfound
    cases hitem
  · cases hfound
    cases hitem
  · next value hvalue =>
    obtain ⟨own, hown, rfl⟩ := Option.map_eq_some_iff.mp hfound
    obtain rfl := Option.some.inj hitem
    exact h value own (hfield value rfl) hown

theorem Yields.listOf? (h : Yields document read Holds) :
    Yields document (listOf? read) fun items => ∀ item ∈ items, Holds item := by
  intro value items hvalue hitems item hitem
  cases value with
  | arr values =>
    obtain ⟨own, hown, hread⟩ := exists_of_forall₂_right (mapM_eq_some_iff.mp hitems) hitem
    exact h own item (fun reference hmentions => hvalue reference (hmentions.of_item hown)) hread
  | _ => cases hitems

theorem Yields.mapOf? (h : Yields document read Holds) :
    Yields document (mapOf? read) fun pairs => ∀ pair ∈ pairs, Holds pair.2 := by
  intro value pairs hvalue hpairs pair hpair
  cases value with
  | obj fields =>
    obtain ⟨field, hfield, hread⟩ := exists_of_forall₂_right (mapM_eq_some_iff.mp hpairs) hpair
    obtain ⟨item, hitem, rfl⟩ := Option.map_eq_some_iff.mp hread
    exact h field.2 item (fun reference hmentions => hvalue reference (hmentions.of_field hfield))
      hitem
  | _ => cases hpairs

theorem Yields.maybeRef (h : Yields document read Holds) :
    Yields document (MaybeRef.ofJson? read) (MaybeRef.Local document Holds) := by
  intro value found hvalue hfound
  unfold MaybeRef.ofJson? at hfound
  split at hfound
  · next reference href =>
    cases hfound
    obtain ⟨field, hfield, hstring⟩ := Option.bind_eq_some_iff.mp href
    cases value with
    | obj fields =>
      cases field with
      | str text =>
        cases hstring
        exact hvalue _ (Json.mentions_own (Keyed.mem_of_get? hfield))
      | _ => cases hstring
    | _ => cases hfield
  · obtain ⟨item, hitem, rfl⟩ := Option.map_eq_some_iff.mp hfound
    exact h value item hvalue hitem

/-- What a chain of references leads to has the property. -/
theorem Yields.followRef (h : Yields document read Holds) {hops : Nat} {reference : String}
    {item : α} (hitem : followRef document read hops reference = some item) : Holds item := by
  induction hops generalizing reference with
  | zero => cases hitem
  | succ hops ih =>
    obtain ⟨value, hvalue, hitem⟩ := Option.bind_eq_some_iff.mp hitem
    obtain ⟨found, hfound, hitem⟩ := Option.bind_eq_some_iff.mp hitem
    have hlocal := h.maybeRef value found (Reference.local_of_resolve hvalue) hfound
    cases found with
    | ref next => exact ih hitem
    | item own =>
      cases hitem
      exact hlocal

theorem Yields.resolve (h : Yields document read Holds) {written : MaybeRef α} {item : α}
    (hwritten : written.Local document Holds)
    (hitem : written.resolve document read = some item) : Holds item := by
  cases written with
  | ref reference => exact h.followRef hitem
  | item own =>
    cases hitem
    exact hwritten

end

/-! ## Kinds of objects -/

/-- The schema of a parameter or of a media type, if there is one, is local. -/
def LocalSchema (document : Json) (schema : Option Json) : Prop :=
  ∀ value, schema = some value → value.Local document

/-- The schemas of some media types are local. -/
def LocalContent (document : Json) (content : Keyed MediaType) : Prop :=
  ∀ pair ∈ content, LocalSchema document pair.2.schema

theorem yields_some : Yields document some (Json.Local · document) := by
  intro value item hvalue hitem
  cases hitem
  exact hvalue

theorem yields_mediaType :
    Yields document MediaType.ofJson? fun media => LocalSchema document media.schema := by
  intro value media hvalue hmedia
  unfold MediaType.ofJson? at hmedia
  split at hmedia
  · next schema hfields =>
    obtain ⟨own, hown, hmedia⟩ := Option.bind_eq_some_iff.mp hmedia
    cases hmedia
    have hfield : LocalSchema document schema := by
      rintro field rfl
      exact local_of_fieldsOf? hvalue hfields (List.mem_singleton.mpr rfl)
    exact fun inner hinner => yields_some.orNothing hfield hown hinner
  · cases hmedia

theorem yields_parameter :
    Yields document Parameter.ofJson? fun parameter => LocalSchema document parameter.schema := by
  intro value parameter hvalue hparameter
  unfold Parameter.ofJson? at hparameter
  extract_lets isComplete at hparameter
  split at hparameter
  · next name location required schema hfields =>
    split at hparameter
    · obtain ⟨name, -, hparameter⟩ := Option.bind_eq_some_iff.mp hparameter
      obtain ⟨location, -, hparameter⟩ := Option.bind_eq_some_iff.mp hparameter
      obtain ⟨required, -, hparameter⟩ := Option.bind_eq_some_iff.mp hparameter
      obtain ⟨own, hown, hparameter⟩ := Option.bind_eq_some_iff.mp hparameter
      cases hparameter
      have hfield : LocalSchema document schema := by
        rintro field rfl
        exact local_of_fieldsOf? hvalue hfields (by simp)
      exact fun inner hinner => yields_some.orNothing hfield hown hinner
    · cases hparameter
  · cases hparameter

theorem yields_content :
    Yields document (mapOf? MediaType.ofJson?) (LocalContent document) :=
  yields_mediaType.mapOf?

theorem yields_body :
    Yields document RequestBody.ofJson? fun body => LocalContent document body.content := by
  intro value body hvalue hbody
  unfold RequestBody.ofJson? at hbody
  split at hbody
  · next content hfields =>
    obtain ⟨own, hown, hbody⟩ := Option.bind_eq_some_iff.mp hbody
    cases hbody
    refine yields_content.orDefault (fun pair hpair => by cases hpair) ?_ hown
    rintro field rfl
    exact local_of_fieldsOf? hvalue hfields (List.mem_singleton.mpr rfl)
  · cases hbody

theorem yields_response : Yields document Response.ofJson? fun response =>
    ∀ content, response.content = some content → LocalContent document content := by
  intro value response hvalue hresponse
  unfold Response.ofJson? at hresponse
  split at hresponse
  · next description content hfields =>
    obtain ⟨text, -, hresponse⟩ := Option.bind_eq_some_iff.mp hresponse
    obtain ⟨own, hown, hresponse⟩ := Option.bind_eq_some_iff.mp hresponse
    cases hresponse
    intro found hfound
    refine yields_content.orNothing ?_ hown hfound
    rintro field rfl
    exact local_of_fieldsOf? hvalue hfields (by simp)
  · cases hresponse

/-- A parameter, or a reference to one. -/
def LocalParameter (document : Json) : MaybeRef Parameter → Prop :=
  MaybeRef.Local document fun parameter => LocalSchema document parameter.schema

/-- A body, or a reference to one. -/
def LocalBody (document : Json) : MaybeRef RequestBody → Prop :=
  MaybeRef.Local document fun body => LocalContent document body.content

/-- A response, or a reference to one. -/
def LocalResponse (document : Json) : MaybeRef Response → Prop :=
  MaybeRef.Local document fun response =>
    ∀ content, response.content = some content → LocalContent document content

/-- The parts of a written operation are local. -/
structure RawOperation.Local (document : Json) (raw : RawOperation) : Prop where
  parameters : ∀ parameter ∈ raw.parameters, LocalParameter document parameter
  requestBody : ∀ body, raw.requestBody = some body → LocalBody document body
  responses : ∀ response ∈ raw.responses, LocalResponse document response.2

theorem local_of_parametersOf? {field : Option Json} {parameters : List (MaybeRef Parameter)}
    (hfield : ∀ value, field = some value → value.Local document)
    (h : parametersOf? field = some parameters) :
    ∀ parameter ∈ parameters, LocalParameter document parameter :=
  yields_parameter.maybeRef.listOf?.orDefault (fun parameter hparameter => by cases hparameter)
    hfield h

theorem yields_operation :
    Yields document RawOperation.ofJson? (RawOperation.Local document) := by
  intro value raw hvalue hraw
  unfold RawOperation.ofJson? at hraw
  split at hraw
  · next operationId summary description parameters requestBody responses hfields =>
    obtain ⟨_, _, hraw⟩ := Option.bind_eq_some_iff.mp hraw
    obtain ⟨_, _, hraw⟩ := Option.bind_eq_some_iff.mp hraw
    obtain ⟨_, _, hraw⟩ := Option.bind_eq_some_iff.mp hraw
    obtain ⟨ownParameters, hparameters, hraw⟩ := Option.bind_eq_some_iff.mp hraw
    obtain ⟨ownBody, hbody, hraw⟩ := Option.bind_eq_some_iff.mp hraw
    obtain ⟨ownResponses, hresponses, hraw⟩ := Option.bind_eq_some_iff.mp hraw
    cases hraw
    have hfield : ∀ field, field ∈ [operationId, summary, description, parameters, requestBody,
        responses] → ∀ value, field = some value → value.Local document := by
      rintro field hmem own rfl
      exact local_of_fieldsOf? hvalue hfields hmem
    refine ⟨?_, ?_, ?_⟩
    · exact local_of_parametersOf? (hfield parameters (by simp)) hparameters
    · exact fun body => yields_body.maybeRef.orNothing (hfield requestBody (by simp)) hbody
    · exact yields_response.maybeRef.mapOf?.orDefault (fun pair hpair => by cases hpair)
        (hfield responses (by simp)) hresponses
  · cases hraw

/-- The operations of a path, and the parameters that they share, are local. -/
structure PathItem.Local (document : Json) (item : PathItem) : Prop where
  operations : ∀ operation ∈ item.operations, operation.2.Local document
  parameters : ∀ parameter ∈ item.parameters, LocalParameter document parameter

theorem yields_pathItem : Yields document PathItem.ofJson? (PathItem.Local document) := by
  intro value item hvalue hitem
  unfold PathItem.ofJson? at hitem
  split at hitem
  · next get put post delete options head patch trace parameters hfields =>
    obtain ⟨ownGet, hget, hitem⟩ := Option.bind_eq_some_iff.mp hitem
    obtain ⟨ownPut, hput, hitem⟩ := Option.bind_eq_some_iff.mp hitem
    obtain ⟨ownPost, hpost, hitem⟩ := Option.bind_eq_some_iff.mp hitem
    obtain ⟨ownDelete, hdelete, hitem⟩ := Option.bind_eq_some_iff.mp hitem
    obtain ⟨ownOptions, hoptions, hitem⟩ := Option.bind_eq_some_iff.mp hitem
    obtain ⟨ownHead, hhead, hitem⟩ := Option.bind_eq_some_iff.mp hitem
    obtain ⟨ownPatch, hpatch, hitem⟩ := Option.bind_eq_some_iff.mp hitem
    obtain ⟨ownTrace, htrace, hitem⟩ := Option.bind_eq_some_iff.mp hitem
    obtain ⟨ownParameters, hparameters, hitem⟩ := Option.bind_eq_some_iff.mp hitem
    cases hitem
    have hfield : ∀ field, field ∈ [get, put, post, delete, options, head, patch, trace,
        parameters] → ∀ value, field = some value → value.Local document := by
      rintro field hmem own rfl
      exact local_of_fieldsOf? hvalue hfields hmem
    refine ⟨?_, local_of_parametersOf? (hfield parameters (by simp)) hparameters⟩
    intro operation hoperation
    unfold PathItem.operations at hoperation
    obtain ⟨method, -, hmethod⟩ := List.mem_filterMap.mp hoperation
    obtain ⟨raw, hraw, rfl⟩ := Option.map_eq_some_iff.mp hmethod
    cases method with
    | get => exact yields_operation.orNothing (hfield get (by simp)) hget hraw
    | put => exact yields_operation.orNothing (hfield put (by simp)) hput hraw
    | post => exact yields_operation.orNothing (hfield post (by simp)) hpost hraw
    | delete => exact yields_operation.orNothing (hfield delete (by simp)) hdelete hraw
    | options => exact yields_operation.orNothing (hfield options (by simp)) hoptions hraw
    | head => exact yields_operation.orNothing (hfield head (by simp)) hhead hraw
    | patch => exact yields_operation.orNothing (hfield patch (by simp)) hpatch hraw
    | trace => exact yields_operation.orNothing (hfield trace (by simp)) htrace hraw
  · cases hitem

/-- The schema that is taken of some media types is local. -/
theorem LocalContent.jsonSchema? {content : Keyed MediaType} (h : LocalContent document content)
    {schema : Json} (hschema : jsonSchema? content = some schema) : schema.Local document := by
  unfold Document.jsonSchema? at hschema
  obtain ⟨pair, hpair, hschema⟩ := List.exists_of_findSome?_eq_some hschema
  exact h pair (List.mem_filter.mp hpair).1 schema hschema

end Document
end TypedClient
