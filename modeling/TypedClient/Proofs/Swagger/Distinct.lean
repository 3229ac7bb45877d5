/-
  TypedClient.Proofs.Swagger.Distinct

  Conversion keeps keys distinct.  The outcome is put together in many places: some values are
  copied as they are, some have fields moved into a new object, and some are made up.  None of them
  repeats a key, provided that the document repeats none.
-/
import TypedClient.Proofs.Json.Distinct
import TypedClient.Proofs.Swagger.Parameters

namespace TypedClient
namespace Swagger

/-! ## Renaming -/

/-- A text or a truth value, as all the values are that renaming puts in. -/
def IsPlain (value : Json) : Prop := (∃ text, value = .str text) ∨ ∃ flag, value = .bool flag

theorem IsPlain.distinct {value : Json} (h : IsPlain value) : value.Distinct := by
  rcases h with ⟨text, rfl⟩ | ⟨flag, rfl⟩
  · exact Json.distinct_str text
  · exact Json.distinct_bool flag

section

variable {fields : Keyed Json}

theorem mem_renameRef {field : String × Json} (hfield : field ∈ renameRef fields) :
    field ∈ fields ∨ IsPlain field.2 := by
  unfold renameRef at hfield
  split at hfield
  · rcases Keyed.mem_insert hfield with hfield | rfl
    · exact Or.inl hfield
    · exact Or.inr (Or.inl ⟨_, rfl⟩)
  · exact Or.inl hfield

theorem mem_renameNullable (h : (Keyed.keys fields).Nodup) {field : String × Json}
    (hfield : field ∈ renameNullable fields) : field ∈ fields ∨ IsPlain field.2 := by
  unfold renameNullable at hfield
  split at hfield
  · rcases Keyed.mem_insert hfield with hfield | rfl
    · rw [(Keyed.swapErase_perm h).mem_iff] at hfield
      exact Or.inl (List.mem_filter.mp hfield).1
    · exact Or.inr (Or.inr ⟨_, rfl⟩)
  · exact Or.inl hfield

theorem mem_renameFile {field : String × Json} (hfield : field ∈ renameFile fields) :
    field ∈ fields ∨ IsPlain field.2 := by
  unfold renameFile at hfield
  split at hfield
  · rcases Keyed.mem_insert hfield with hfield | rfl
    · rcases Keyed.mem_insert hfield with hfield | rfl
      · exact Or.inl hfield
      · exact Or.inr (Or.inl ⟨_, rfl⟩)
    · exact Or.inr (Or.inl ⟨_, rfl⟩)
  · exact Or.inl hfield

/-- A field of a renamed object was there before, or holds a text or a truth value. -/
theorem mem_renameFields (h : (Keyed.keys fields).Nodup) {field : String × Json}
    (hfield : field ∈ renameFields fields) : field ∈ fields ∨ IsPlain field.2 := by
  rcases mem_renameFile hfield with hfield | hplain
  · rcases mem_renameNullable (nodup_keys_renameRef h) hfield with hfield | hplain
    · exact mem_renameRef hfield
    · exact Or.inr hplain
  · exact Or.inr hplain

theorem distinct_renameFields (h : (Json.obj fields).Distinct) :
    (Json.obj (renameFields fields)).Distinct := by
  rw [Json.distinct_obj_iff] at h ⊢
  refine ⟨nodup_keys_renameFields h.1, fun field hfield => ?_⟩
  rcases mem_renameFields h.1 hfield with hfield | hplain
  · exact h.2 field hfield
  · exact hplain.distinct

theorem distinct_upgrade {value : Json} (h : value.Distinct) : (upgrade value).Distinct := by
  induction value using Json.induction with
  | arr items ih =>
    rw [upgrade, upgradeItems_eq, Json.distinct_arr_iff, List.forall_mem_map]
    exact fun item hitem => ih item hitem (Json.distinct_arr_iff.mp h item hitem)
  | obj fields ih =>
    rw [upgrade, upgradeFields_eq]
    exact distinct_renameFields (h.mapValues ih)
  | null => exact h
  | bool _ => exact h
  | num _ => exact h
  | str _ => exact h

/-! ## Parameters and responses -/

/-- Both what the keywords take out of an object and what they leave have distinct keys. -/
theorem distinct_takeSchema (h : (Json.obj fields).Distinct) :
    (Json.obj (takeSchema fields).1).Distinct ∧ (Json.obj (takeSchema fields).2).Distinct := by
  unfold takeSchema
  -- Whichever keywords are taken: the invariant does not depend on the list.
  generalize schemaKeywords = keywords
  refine List.foldlRecOn
    (motive := fun taken : Keyed Json × Keyed Json =>
      (Json.obj taken.1).Distinct ∧ (Json.obj taken.2).Distinct)
    keywords _ ⟨Json.distinct_nil, h⟩ fun taken htaken key _ => ?_
  obtain ⟨schema, rest⟩ := taken
  obtain ⟨hschema, hrest⟩ := htaken
  dsimp only [takeField]
  cases hvalue : Keyed.get? key rest with
  | none => exact ⟨hschema, hrest⟩
  | some value => exact ⟨hschema.insert key (hrest.of_get? hvalue), hrest.swapErase key⟩

theorem distinct_nestSchema (h : (Json.obj fields).Distinct) :
    (Json.obj (nestSchema fields)).Distinct := by
  have htaken := distinct_takeSchema h
  unfold nestSchema
  generalize takeSchema fields = taken at htaken ⊢
  obtain ⟨schema, rest⟩ := taken
  obtain ⟨hschema, hrest⟩ := htaken
  dsimp only at hschema hrest ⊢
  split
  · exact hrest
  · exact hrest.insert "schema" hschema

/-- The collection format is taken out, and the style of the list is put in, if there is one. -/
theorem convertListFormat_cases (fields : Keyed Json) :
    convertListFormat fields = fields.swapErase "collectionFormat" ∨
      ∃ style explode, convertListFormat fields =
        ((fields.swapErase "collectionFormat").insert "style" (.str style)).insert "explode"
          (.bool explode) := by
  unfold convertListFormat takeField
  generalize Keyed.swapErase "collectionFormat" fields = rest
  split
  · next heq =>
    rw [(Prod.mk.inj heq).2]
    dsimp only
    split
    · exact Or.inr ⟨_, _, rfl⟩
    · exact Or.inl rfl
  · next heq => exact Or.inl (Prod.mk.inj heq).2.symm

theorem distinct_convertListFormat (h : (Json.obj fields).Distinct) :
    (Json.obj (convertListFormat fields)).Distinct := by
  have hrest := h.swapErase "collectionFormat"
  rcases convertListFormat_cases fields with heq | ⟨style, explode, heq⟩
  · rw [heq]
    exact hrest
  · rw [heq]
    exact (hrest.insert "style" (Json.distinct_str _)).insert "explode" (Json.distinct_bool _)

theorem distinct_convertParameter {parameter : Json} (h : parameter.Distinct) :
    (convertParameter parameter).Distinct := by
  cases parameter with
  | obj fields => exact distinct_convertListFormat (distinct_nestSchema h)
  | _ => exact h

theorem distinct_convertHeader {header : Json} (h : header.Distinct) :
    (convertHeader header).Distinct := by
  cases header with
  | obj fields => exact distinct_nestSchema h
  | _ => exact h

theorem distinct_convertHeaders (h : (Json.obj fields).Distinct) :
    (Json.obj (convertHeaders fields)).Distinct := by
  unfold convertHeaders
  split
  · next headers hheaders =>
    have hheaders : (Json.obj headers).Distinct := h.of_get? hheaders
    exact h.insert "headers" (hheaders.mapValues fun _ _ => distinct_convertHeader)
  · exact h

theorem distinct_contentOf (mediaTypes : List String) {schema : Json} (h : schema.Distinct) :
    (contentOf mediaTypes schema).Distinct := by
  refine Json.distinct_ofList fun pair hpair => ?_
  obtain ⟨mediaType, -, rfl⟩ := List.mem_map.mp hpair
  exact Json.distinct_nil.insert "schema" h

theorem distinct_convertResponse (produces : List String) {response : Json}
    (h : response.Distinct) : (convertResponse produces response).Distinct := by
  cases response with
  | obj fields =>
    unfold convertResponse takeField
    dsimp only
    split
    · exact h
    · have hrest := distinct_convertHeaders (((h.swapErase "schema").swapErase
        "examples").insertNew "description" (Json.distinct_str ""))
      cases hschema : Keyed.get? "schema" fields with
      | none => exact hrest
      | some schema =>
        exact hrest.insert "content" (distinct_contentOf produces (h.of_get? hschema))
  | _ => exact h

theorem distinct_convertResponses (produces : List String) {responses : Keyed Json}
    (h : (Json.obj responses).Distinct) :
    (Json.obj (convertResponses produces responses)).Distinct :=
  h.mapValues fun _ _ => distinct_convertResponse produces

/-! ## Request bodies -/

theorem distinct_bodyRequest? {mediaTypes : List String} {body request : Json}
    (h : body.Distinct) (hrequest : bodyRequest? mediaTypes body = some request) :
    request.Distinct := by
  obtain ⟨schema, hschema, hrequest⟩ := Option.bind_eq_some_iff.mp hrequest
  have hcontent := distinct_contentOf mediaTypes (h.of_get? hschema)
  rw [← Option.some.inj hrequest, Json.distinct_obj_iff]
  cases hdescription : body.get? "description" with
  | none => cases isRequired body <;> simp [Keyed.keys, hcontent, Json.Distinct]
  | some description =>
    have hdescription : description.Distinct := h.of_get? hdescription
    cases isRequired body <;> simp [Keyed.keys, hcontent, hdescription, Json.Distinct]

theorem distinct_ofParameter? {parameter : Json} {field : FormField} (h : parameter.Distinct)
    (hfield : FormField.ofParameter? parameter = some field) :
    (Json.obj field.schema).Distinct := by
  unfold FormField.ofParameter? at hfield
  obtain ⟨fields, hobject, hfield⟩ := Option.bind_eq_some_iff.mp hfield
  obtain ⟨name, -, hfield⟩ := Option.bind_eq_some_iff.mp hfield
  cases parameter with
  | obj others =>
    cases hobject
    have htaken := distinct_takeSchema h
    generalize takeSchema fields = taken at htaken hfield
    obtain ⟨schema, rest⟩ := taken
    obtain ⟨hschema, hrest⟩ := htaken
    rw [← Option.some.inj hfield]
    dsimp only at hschema hrest ⊢
    split
    · next description hdescription =>
      exact hschema.insert "description" (hrest.of_get? hdescription)
    · exact hschema
  | _ => cases hobject

theorem distinct_formSchema {fields : List FormField}
    (h : ∀ field ∈ fields, (Json.obj field.schema).Distinct) : (formSchema fields).Distinct := by
  have hproperties : (Json.obj (Keyed.ofList
      (fields.map fun field => (field.name, .obj field.schema)))).Distinct := by
    refine Json.distinct_ofList fun pair hpair => ?_
    obtain ⟨field, hfield, rfl⟩ := List.mem_map.mp hpair
    exact h field hfield
  have hrequired : (Json.arr ((fields.filter FormField.required).map
      (Json.str ·.name))).Distinct := by
    rw [Json.distinct_arr_iff, List.forall_mem_map]
    exact fun _ _ => trivial
  unfold formSchema
  dsimp only
  rw [Json.distinct_obj_iff]
  split <;> simp [Keyed.keys, hproperties, hrequired, Json.distinct_str]

theorem distinct_formRequest (mediaTypes : List String) {parameters : List Json}
    (h : ∀ parameter ∈ parameters, parameter.Distinct) :
    (formRequest mediaTypes parameters).Distinct := by
  have hschema : (formSchema (parameters.filterMap FormField.ofParameter?)).Distinct := by
    refine distinct_formSchema fun field hfield => ?_
    obtain ⟨parameter, hparameter, hfield⟩ := List.mem_filterMap.mp hfield
    exact distinct_ofParameter? (h parameter hparameter) hfield
  exact Json.distinct_nil.insert "content"
    (Json.distinct_nil.insert _ (Json.distinct_nil.insert "schema" hschema))

end

/-! ## Operations -/

section

variable {context : Context} {globals fields : Keyed Json} {shared own : List Json}
  {merged : List Resolved} {mediaTypes : List String} {path method : String}

theorem distinct_fieldsOf {value : Option Json} (h : ∀ inner ∈ value, inner.Distinct) :
    (Json.obj (fieldsOf value)).Distinct := by
  cases value with
  | none => exact Json.distinct_nil
  | some inner =>
    cases inner with
    | obj fields => exact h _ rfl
    | _ => exact Json.distinct_nil

theorem distinct_of_mem_itemsOf {value : Option Json} (h : ∀ inner ∈ value, inner.Distinct)
    {item : Json} (hitem : item ∈ itemsOf value) : item.Distinct := by
  cases value with
  | none => cases hitem
  | some inner =>
    cases inner with
    | arr items => exact Json.distinct_arr_iff.mp (h _ rfl) item hitem
    | _ => cases hitem

/-- Merged parameters are taken from the lists that are merged, or from the global ones. -/
theorem Merged.distinct (h : Merged globals shared own merged)
    (hglobals : (Json.obj globals).Distinct)
    (hall : ∀ parameter ∈ shared ++ own, parameter.Distinct) :
    ∀ parameter ∈ merged, parameter.1.Distinct := by
  obtain ⟨resolved, hmeans, hoverrides⟩ := h
  intro parameter hparameter
  have hresolved : parameter ∈ resolved := by
    rw [overrides_iff.mp hoverrides] at hparameter
    exact mem_overrideAll hparameter
  obtain ⟨written, hwritten, hmeans⟩ := exists_of_forall₂_right hmeans hresolved
  -- A parameter stands for itself, or for a global one that its reference leads to.
  cases hmeans with
  | own _ => exact hall written hwritten
  | global _ hnames =>
    obtain ⟨token, -, htarget⟩ := hnames
    exact hglobals.of_get? htarget

theorem distinct_keptParameters (h : ∀ parameter ∈ merged, parameter.1.Distinct) :
    (Json.arr (keptParameters merged)).Distinct := by
  rw [Json.distinct_arr_iff, keptParameters, List.forall_mem_map]
  intro parameter hparameter
  have hdistinct := h parameter (List.mem_filter.mp hparameter).1
  obtain ⟨value, reference⟩ := parameter
  cases reference with
  | none => exact distinct_convertParameter hdistinct
  | some reference => exact Json.distinct_nil.insert "$ref" (Json.distinct_str reference)

theorem distinct_requestOf (h : ∀ parameter ∈ merged, parameter.1.Distinct)
    {request : Option Json} (hrequest : requestOf mediaTypes merged path method = .ok request) :
    ∀ inner ∈ request, inner.Distinct := by
  have hall : ∀ parameter ∈ merged.map (·.1), parameter.Distinct := List.forall_mem_map.mpr h
  unfold requestOf at hrequest
  dsimp only at hrequest
  split at hrequest
  · next body hbody =>
    have hbody : body.Distinct :=
      hall body (List.mem_filter.mp (List.mem_of_getLast? hbody)).1
    split at hrequest
    · next request hbodyRequest =>
      cases hrequest
      intro inner hinner
      cases hinner
      exact distinct_bodyRequest? hbody hbodyRequest
    · cases hrequest
  · split at hrequest
    · cases hrequest
      exact fun _ hinner => by cases hinner
    · cases hrequest
      intro inner hinner
      cases hinner
      exact distinct_formRequest mediaTypes fun parameter hparameter =>
        hall parameter (List.mem_filter.mp hparameter).1

theorem distinct_operationOf (hfields : (Json.obj fields).Distinct)
    (hmerged : ∀ parameter ∈ merged, parameter.1.Distinct) {request : Option Json}
    (hrequest : ∀ inner ∈ request, inner.Distinct) :
    (Json.obj (operationOf context fields merged request)).Distinct := by
  have hparameters :
      (Json.obj (withParameters (restOf fields) (keptParameters merged))).Distinct := by
    unfold withParameters
    split
    · exact hfields.removeAll _
    · exact (hfields.removeAll _).insert _ (distinct_keptParameters hmerged)
  have hrest : (Json.obj (withRequest (withParameters (restOf fields) (keptParameters merged))
      request)).Distinct := by
    cases request with
    | none => exact hparameters
    | some inner => exact hparameters.insert _ (hrequest inner rfl)
  exact (hrest.swapErase _).insert _ (distinct_convertResponses _
    (distinct_fieldsOf fun _ hinner => hrest.of_get? hinner))

theorem distinct_operation (hcontext : (Json.obj context.parameters).Distinct)
    (hshared : ∀ parameter ∈ shared, parameter.Distinct) (hfields : (Json.obj fields).Distinct)
    {converted : Keyed Json}
    (h : context.operation path method shared fields = .ok converted) :
    (Json.obj converted).Distinct := by
  rw [operation_eq hfields.nodup] at h
  obtain ⟨merged, hmerged, h⟩ := bind_eq_ok_iff.mp h
  obtain ⟨request, hrequest, h⟩ := bind_eq_ok_iff.mp h
  have hall : ∀ parameter ∈ merged, parameter.1.Distinct := by
    refine (merge_eq_ok_iff.mp hmerged).distinct hcontext fun parameter hparameter => ?_
    rcases List.mem_append.mp hparameter with hparameter | hparameter
    · exact hshared parameter hparameter
    · exact distinct_of_mem_itemsOf (fun _ hinner => hfields.of_get? hinner) hparameter
  cases h
  exact distinct_operationOf hfields hall (distinct_requestOf hall hrequest)

/-! ## Paths -/

/-- Results that have the keys of their items are an object with distinct keys. -/
theorem distinct_of_forall₂ {relation : String × Json → String × Json → Prop}
    {items results : Keyed Json} (h : List.Forall₂ relation items results)
    (hitems : (Keyed.keys items).Nodup)
    (hkey : ∀ item result, relation item result → result.1 = item.1)
    (hvalue : ∀ item ∈ items, ∀ result, relation item result → result.2.Distinct) :
    (Json.obj results).Distinct := by
  rw [Json.distinct_obj_iff, keys_of_forall₂ h hkey]
  refine ⟨hitems, fun result hresult => ?_⟩
  obtain ⟨item, hitem, hrelated⟩ := exists_of_forall₂_right h hresult
  exact hvalue item hitem result hrelated

theorem distinct_itemField (hcontext : (Json.obj context.parameters).Distinct)
    (hshared : ∀ parameter ∈ shared, parameter.Distinct) {field converted : String × Json}
    (hfield : field.2.Distinct) (h : context.itemField path shared field = .ok converted) :
    converted.2.Distinct := by
  obtain ⟨key, value⟩ := field
  unfold Context.itemField at h
  dsimp only at h
  split at h
  · split at h
    · obtain ⟨operation, hoperation, h⟩ := bind_eq_ok_iff.mp h
      cases h
      exact distinct_operation hcontext hshared hfield hoperation
    · cases h
  · cases h
    exact hfield

theorem distinct_pathItem (hcontext : (Json.obj context.parameters).Distinct)
    {item converted : String × Json} (hitem : item.2.Distinct)
    (h : context.pathItem item = .ok converted) : converted.2.Distinct := by
  obtain ⟨path, value⟩ := item
  obtain ⟨fields, outFields, rfl, rfl, hall⟩ := pathItem_eq_ok h
  have hrest : (Json.obj (Keyed.swapErase "parameters" fields)).Distinct := hitem.swapErase _
  rw [Json.distinct_obj_iff] at hrest
  refine distinct_of_forall₂ hall hrest.1 (fun _ _ => itemField_key) fun field hfield _ => ?_
  refine distinct_itemField hcontext (fun parameter => ?_) (hrest.2 field hfield)
  exact distinct_of_mem_itemsOf fun _ hinner => hitem.of_get? hinner

theorem distinct_paths (hcontext : (Json.obj context.parameters).Distinct) {value : Option Json}
    (hvalue : ∀ inner ∈ value, inner.Distinct) {paths : Keyed Json}
    (h : context.paths value = .ok paths) : (Json.obj paths).Distinct := by
  unfold Context.paths at h
  split at h
  · cases h
    exact Json.distinct_nil
  · next items =>
    have hitems := Json.distinct_obj_iff.mp (hvalue (.obj items) rfl)
    exact distinct_of_forall₂ (mapM_eq_ok_iff.mp h) hitems.1 (fun _ _ => pathItem_key)
      fun item hitem _ => distinct_pathItem hcontext (hitems.2 item hitem)
  · cases h

end

/-! ## Documents -/

section

variable {root paths : Keyed Json}

theorem distinct_convertMember (produces : List String) (kind : Section) {member : Json}
    (h : member.Distinct) : (kind.convertMember produces member).Distinct := by
  cases kind with
  | definitions => exact h
  | parameters => exact distinct_convertParameter h
  | responses => exact distinct_convertResponse produces h

theorem distinct_value? (h : (Json.obj root).Distinct) (kind : Section) :
    ∀ value ∈ kind.value? root, value.Distinct := by
  have hsection : ∀ value ∈ Keyed.get? kind.key root, value.Distinct :=
    fun _ hvalue => h.of_get? hvalue
  have hmembers : (Json.obj (kind.membersOf root)).Distinct :=
    ((distinct_fieldsOf hsection).filter _).mapValues fun _ _ => distinct_convertMember _ kind
  intro value hvalue
  cases kind with
  | definitions => exact hsection value hvalue
  | parameters =>
    unfold Section.value? at hvalue
    dsimp only at hvalue
    split at hvalue
    · cases hvalue
    · cases hvalue
      exact hmembers
  | responses =>
    obtain ⟨responses, hresponses, rfl⟩ := Option.map_eq_some_iff.mp hvalue
    obtain ⟨inner, hinner, hobject⟩ := Option.bind_eq_some_iff.mp hresponses
    cases inner with
    | obj fields =>
      cases hobject
      exact distinct_convertResponses _ (hsection _ hinner)
    | _ => cases hobject

theorem nodup_keys_componentsOf (root : Keyed Json) : (Keyed.keys (componentsOf root)).Nodup := by
  have hsublist :
      (Keyed.keys (componentsOf root)).Sublist ["schemas", "parameters", "responses"] := by
    rw [componentsOf_eq, Keyed.keys, List.map_append, List.map_append]
    exact ((keys_fieldOf_sublist ..).append (keys_fieldOf_sublist ..)).append
      (keys_fieldOf_sublist ..)
  exact List.Nodup.sublist hsublist (by decide)

theorem distinct_componentsOf (h : (Json.obj root).Distinct) :
    (Json.obj (componentsOf root)).Distinct := by
  rw [Json.distinct_obj_iff]
  refine ⟨nodup_keys_componentsOf root, fun field hfield => ?_⟩
  rw [componentsOf_eq] at hfield
  rcases List.mem_append.mp hfield with hfield | hfield
  · rcases List.mem_append.mp hfield with hfield | hfield
    · exact distinct_value? h .definitions _ (mem_fieldOf hfield)
    · exact distinct_value? h .parameters _ (mem_fieldOf hfield)
  · exact distinct_value? h .responses _ (mem_fieldOf hfield)

theorem distinct_servers? (root : Keyed Json) : ∀ servers ∈ servers? root, servers.Distinct := by
  intro servers hservers
  obtain ⟨address, -, rfl⟩ := Option.map_eq_some_iff.mp hservers
  simp [Json.distinct_arr_iff, Json.distinct_obj_iff, Keyed.keys, Json.distinct_str]

theorem distinct_outcomeOf (h : (Json.obj root).Distinct) (hpaths : (Json.obj paths).Distinct) :
    (Json.obj (outcomeOf root paths)).Distinct := by
  have hroot : ∀ key, ∀ value ∈ Keyed.get? key root, value.Distinct :=
    fun _ _ hvalue => h.of_get? hvalue
  have hinfo : ((Keyed.get? "info" root).getD
      (.obj [("title", .str ""), ("version", .str "")])).Distinct := by
    cases hvalue : Keyed.get? "info" root with
    | some value => exact hroot "info" value hvalue
    | none => simp [Json.distinct_obj_iff, Keyed.keys, Json.distinct_str]
  have hextensions : ∀ field ∈ extensionsOf root, field.2.Distinct :=
    (Json.distinct_obj_iff.mp ((h.removeAll _).filter _)).2
  rw [Json.distinct_obj_iff]
  refine ⟨nodup_keys_outcomeOf h.nodup paths, fun field hfield => ?_⟩
  simp only [outcomeOf, List.mem_append] at hfield
  rcases hfield with (((((hown | hservers) | htags) | hdocs) | hextension) | hpath) | hcomponents
  · rcases List.mem_cons.mp hown with rfl | hown
    · exact Json.distinct_str _
    · rw [List.mem_singleton.mp hown]
      exact hinfo
  · exact distinct_servers? root _ (mem_fieldOf hservers)
  · exact hroot "tags" _ (mem_fieldOf htags)
  · exact hroot "externalDocs" _ (mem_fieldOf hdocs)
  · exact hextensions field hextension
  · rw [List.mem_singleton.mp hpath]
    exact hpaths
  · split at hcomponents
    · cases hcomponents
    · rw [List.mem_singleton.mp hcomponents]
      exact distinct_componentsOf h

theorem distinct_convertedPaths (h : (Json.obj root).Distinct)
    (hpaths : (Context.of root).paths (Keyed.get? "paths" root) = .ok paths) :
    (Json.obj paths).Distinct :=
  distinct_paths (distinct_fieldsOf fun _ hinner => h.of_get? hinner)
    (fun _ hinner => h.of_get? hinner) hpaths

/-- The outcome of a conversion has distinct keys. -/
theorem distinct_of_convert {document output : Json} (h : document.Distinct)
    (hconvert : convert document = .ok output) : output.Distinct := by
  cases document with
  | obj root =>
    obtain ⟨paths, hpaths, rfl⟩ :=
      (convert_obj_eq_ok_iff h.nodup).mp hconvert
    exact distinct_upgrade (distinct_outcomeOf h (distinct_convertedPaths h hpaths))
  | _ => cases hconvert

end

end Swagger
end TypedClient
