/-
  TypedClient.Proofs.Swagger.Parameters

  What becomes of the parameters of an operation.  Its merged parameters are split three ways: a
  body becomes a request, form fields become one schema of a request, and the others stay where
  they are.  None is lost and none is made up, and the path keeps none of them.

  An operation is found in the outcome by the way that leads to it in the document.  So the first
  sections follow that way down: through a map converted item by item, and through the upgrade.
-/
import TypedClient.Proofs.Fuel
import TypedClient.Proofs.Swagger.Acceptance

namespace TypedClient

namespace Swagger

/-! ## Maps converted item by item -/

section

variable {α β : Type} {relation : String × α → String × β → Prop} {items : Keyed α}
  {results : Keyed β}

/-- When each result has the key of its item, an item is found just where its result is. -/
theorem get?_of_forall₂ (h : List.Forall₂ relation items results)
    (hkey : ∀ item result, relation item result → result.1 = item.1) {key : String} {value : α}
    (hvalue : Keyed.get? key items = some value) :
    ∃ result, Keyed.get? key results = some result ∧ relation (key, value) (key, result) := by
  induction h with
  | nil => cases hvalue
  | @cons item result items results hfirst _ ih =>
    obtain ⟨itemKey, first⟩ := item
    obtain ⟨resultKey, second⟩ := result
    have hsame : resultKey = itemKey := hkey _ _ hfirst
    subst hsame
    rw [Keyed.get?_cons] at hvalue ⊢
    split at hvalue
    · next heq =>
      cases hvalue
      subst heq
      exact ⟨second, if_pos rfl, hfirst⟩
    · next hne =>
      rw [if_neg hne]
      exact ih hvalue

theorem keys_of_forall₂ (h : List.Forall₂ relation items results)
    (hkey : ∀ item result, relation item result → result.1 = item.1) :
    Keyed.keys results = Keyed.keys items := by
  induction h with
  | nil => rfl
  | cons hfirst _ ih =>
    rw [Keyed.keys, Keyed.keys, List.map_cons, List.map_cons, hkey _ _ hfirst]
    exact congrArg _ ih

end

section

variable {context : Context} {shared : List Json} {path : String}

theorem itemField_key {field converted : String × Json}
    (h : context.itemField path shared field = .ok converted) : converted.1 = field.1 := by
  obtain ⟨key, value⟩ := field
  unfold Context.itemField at h
  dsimp only at h
  split at h
  · split at h
    · obtain ⟨operation, -, h⟩ := bind_eq_ok_iff.mp h
      cases h
      rfl
    · cases h
  · cases h
    rfl

/-- Under a method a path item has an operation, which is converted. -/
theorem itemField_method {method : String} (hmethod : method ∈ methodKeys) {fields : Keyed Json}
    {converted : Json}
    (h : context.itemField path shared (method, .obj fields) = .ok (method, converted)) :
    ∃ operation, converted = .obj operation ∧
      context.operation path method shared fields = .ok operation := by
  unfold Context.itemField at h
  dsimp only at h
  rw [if_pos (List.contains_iff_mem.mpr hmethod)] at h
  obtain ⟨operation, hoperation, h⟩ := bind_eq_ok_iff.mp h
  cases h
  exact ⟨operation, rfl, hoperation⟩

/-- A converted path item has its shared parameters taken out, and is converted field by field. -/
theorem pathItem_eq_ok {item converted : String × Json}
    (h : context.pathItem item = .ok converted) :
    ∃ fields outFields, item.2 = .obj fields ∧ converted = (item.1, .obj outFields) ∧
      List.Forall₂ (fun field outField => context.itemField item.1
          (itemsOf (Keyed.get? "parameters" fields)) field = .ok outField)
        (Keyed.swapErase "parameters" fields) outFields := by
  obtain ⟨path, value⟩ := item
  unfold Context.pathItem at h
  cases value with
  | obj fields =>
    obtain ⟨outFields, hfields, h⟩ := bind_eq_ok_iff.mp h
    cases h
    exact ⟨fields, outFields, rfl, rfl, mapM_eq_ok_iff.mp hfields⟩
  | _ => cases h

end

/-! ## The way to an operation -/

/-- The path item of a path. -/
def item? (document : Json) (path : String) : Option Json :=
  (document.get? "paths").bind (Json.get? path)

theorem distinct_of_item? {document item : Json} {path : String} (h : document.Distinct)
    (hitem : item? document path = some item) : item.Distinct := by
  obtain ⟨paths, hpaths, hitem⟩ := Option.bind_eq_some_iff.mp hitem
  exact (h.of_get? hpaths).of_get? hitem

/-- A map of objects stays one when it is upgraded, with an upgraded value under each key. -/
theorem get?_upgrade_of_holdsObjects {fields : Keyed Json} (h : HoldsObjects fields)
    (key : String) : (upgrade (.obj fields)).get? key = (Keyed.get? key fields).map upgrade := by
  rw [upgrade_of_holdsObjects h]
  exact Keyed.get?_mapValues upgrade key fields

theorem upgrade_singleton {key : String} {value : Json} (h : ∃ inner, value = .obj inner) :
    upgrade (.obj [(key, value)]) = .obj [(key, upgrade value)] := by
  have hobjects : HoldsObjects [(key, value)] := by
    intro field hfield
    rw [List.mem_singleton.mp hfield]
    exact h
  rw [upgrade_of_holdsObjects hobjects]
  rfl

/-- The outcome has the converted paths. -/
theorem get?_outcomeOf_paths {root : Keyed Json} (hroot : (Keyed.keys root).Nodup)
    (paths : Keyed Json) : Keyed.get? "paths" (outcomeOf root paths) = some (.obj paths) := by
  refine Keyed.get?_of_mem (nodup_keys_outcomeOf hroot paths) (List.mem_append_left _ ?_)
  exact List.mem_append_right _ (List.mem_singleton.mpr rfl)

/-- The paths of the outcome are the converted ones, upgraded. -/
theorem get?_paths_outcomeOf {root : Keyed Json} (hroot : (Keyed.keys root).Nodup)
    (paths : Keyed Json) :
    (upgrade (.obj (outcomeOf root paths))).get? "paths" = some (upgrade (.obj paths)) := by
  rw [upgrade]
  show Keyed.get? "paths" (renameFields (upgradeFields (outcomeOf root paths))) = _
  rw [get?_upgrade (nodup_keys_outcomeOf hroot paths) (by decide), get?_outcomeOf_paths hroot,
    Option.map_some]

section

variable {context : Context} {value : Option Json} {paths : Keyed Json}

/-- Paths are converted item by item. -/
theorem paths_eq_ok (h : context.paths value = .ok paths) :
    List.Forall₂ (fun item result => context.pathItem item = .ok result) (fieldsOf value)
      paths := by
  unfold Context.paths at h
  split at h
  · cases h
    exact .nil
  · exact mapM_eq_ok_iff.mp h
  · cases h

theorem pathItem_key {item converted : String × Json}
    (h : context.pathItem item = .ok converted) : converted.1 = item.1 := by
  obtain ⟨_, _, -, rfl, -⟩ := pathItem_eq_ok h
  rfl

/-- Converted paths are objects. -/
theorem holdsObjects_paths (h : context.paths value = .ok paths) : HoldsObjects paths := by
  intro result hresult
  obtain ⟨item, -, hconverted⟩ := exists_of_forall₂_right (paths_eq_ok h) hresult
  obtain ⟨_, outItem, -, rfl, -⟩ := pathItem_eq_ok hconverted
  exact ⟨outItem, rfl⟩

/-- The item of a path is found under the path again, converted field by field, with the shared
    parameters taken out. -/
theorem get?_paths_eq_ok (h : context.paths value = .ok paths) {path : String}
    {item : Keyed Json} (hitem : Keyed.get? path (fieldsOf value) = some (.obj item)) :
    ∃ outItem, Keyed.get? path paths = some (.obj outItem) ∧
      List.Forall₂ (fun field outField => context.itemField path
          (itemsOf (Keyed.get? "parameters" item)) field = .ok outField)
        (Keyed.swapErase "parameters" item) outItem := by
  obtain ⟨result, hresult, hpath⟩ :=
    get?_of_forall₂ (paths_eq_ok h) (fun _ _ => pathItem_key) hitem
  obtain ⟨fields, outItem, hfields, heq, hall⟩ := pathItem_eq_ok hpath
  cases hfields
  cases heq
  exact ⟨outItem, hresult, hall⟩

end

theorem item?_obj (root : Keyed Json) (path : String) :
    item? (.obj root) path = Keyed.get? path (fieldsOf (Keyed.get? "paths" root)) := by
  show (Keyed.get? "paths" root).bind (Json.get? path) = _
  cases Keyed.get? "paths" root with
  | none => rfl
  | some paths => cases paths <;> rfl

/-- The item of a path is found in the outcome where it was: without shared parameters, and with
    each operation converted from its own fields and the parameters that it shared. -/
theorem convert_item {root item : Keyed Json} {output : Json} {path : String}
    (hdistinct : (Json.obj root).Distinct) (hconvert : convert (.obj root) = .ok output)
    (hitem : item? (.obj root) path = some (.obj item)) :
    ∃ outItem, item? output path = some (.obj (renameFields (upgradeFields outItem))) ∧
      (Keyed.keys outItem).Nodup ∧ Keyed.get? "parameters" outItem = none ∧
      ∀ method ∈ methodKeys, ∀ fields, Keyed.get? method item = some (.obj fields) →
        ∃ operation, Keyed.get? method outItem = some (.obj operation) ∧
          (Context.of root).operation path method (itemsOf (Keyed.get? "parameters" item))
            fields = .ok operation := by
  have hnodup : (Keyed.keys item).Nodup := by
    have hdistinct := distinct_of_item? hdistinct hitem
    rw [Json.Distinct] at hdistinct
    exact hdistinct.1
  rw [Json.Distinct] at hdistinct
  obtain ⟨paths, hpaths, rfl⟩ := (convert_obj_eq_ok_iff hdistinct.1).mp hconvert
  rw [item?_obj] at hitem
  obtain ⟨outItem, hresult, hall⟩ := get?_paths_eq_ok hpaths hitem
  have hkeys : Keyed.keys outItem = Keyed.keys (Keyed.swapErase "parameters" item) :=
    keys_of_forall₂ hall fun _ _ => itemField_key
  refine ⟨outItem, ?_, ?_, ?_, ?_⟩
  · unfold item?
    rw [get?_paths_outcomeOf hdistinct.1, Option.bind_some,
      get?_upgrade_of_holdsObjects (holdsObjects_paths hpaths), hresult, Option.map_some, upgrade]
  · rw [hkeys]
    exact Keyed.nodup_keys_swapErase hnodup
  · rw [Keyed.get?_eq_none_iff, hkeys, ← Keyed.get?_eq_none_iff]
    exact Keyed.get?_swapErase_self _ hnodup
  · intro method hmethod operation hoperation
    have hne : method ≠ "parameters" := fun heq => absurd (heq ▸ hmethod) (by decide)
    rw [← Keyed.get?_swapErase_of_ne hnodup hne] at hoperation
    obtain ⟨converted, hconverted, hfield⟩ :=
      get?_of_forall₂ hall (fun _ _ => itemField_key) hoperation
    obtain ⟨converted, rfl, hconverts⟩ := itemField_method hmethod hfield
    exact ⟨converted, hconverted, hconverts⟩

/-! ## Form fields -/

/-- A parameter that has a name is an object, and the form field that it becomes has the name. -/
theorem ofParameter?_of_named {parameter : Json} {name : String}
    (h : textAt? "name" parameter = some name) :
    ∃ field, FormField.ofParameter? parameter = some field ∧ field.name = name ∧
      field.required = isRequired parameter := by
  cases parameter with
  | obj fields =>
    unfold FormField.ofParameter?
    rw [h]
    exact ⟨_, rfl, rfl, rfl⟩
  | _ => cases h

/-- A form field has the name of its parameter. -/
theorem name_ofParameter? {parameter : Json} {field : FormField}
    (h : FormField.ofParameter? parameter = some field) :
    textAt? "name" parameter = some field.name := by
  unfold FormField.ofParameter? at h
  obtain ⟨fields, -, h⟩ := Option.bind_eq_some_iff.mp h
  obtain ⟨name, hname, h⟩ := Option.bind_eq_some_iff.mp h
  rw [hname, ← Option.some.inj h]

/-- Parameters with distinct names become form fields with distinct names. -/
theorem nodup_names_of_parameters {parameters : List Json}
    (h : (parameters.map (textAt? "name")).Nodup) :
    ((parameters.filterMap FormField.ofParameter?).map (·.name)).Nodup := by
  have hsublist : (((parameters.filterMap FormField.ofParameter?).map (·.name)).map some).Sublist
      (parameters.map (textAt? "name")) := by
    clear h
    induction parameters with
    | nil => exact .slnil
    | cons parameter rest ih =>
      cases hfield : FormField.ofParameter? parameter with
      | none =>
        rw [List.filterMap_cons_none hfield, List.map_cons]
        exact ih.cons _
      | some field =>
        rw [List.filterMap_cons_some hfield, List.map_cons, List.map_cons, List.map_cons,
          name_ofParameter? hfield]
        exact ih.cons_cons _
  exact List.Nodup.of_map _ (h.sublist hsublist)

/-- Every one of these parameters has a name. -/
def Named (parameters : List Json) : Prop :=
  ∀ parameter ∈ parameters, ∃ name, textAt? "name" parameter = some name

section

variable {parameters : List Json}

/-- Parameters with names become form fields with these names, required when they are. -/
theorem formFields_of_named (h : Named parameters) :
    ((parameters.filterMap FormField.ofParameter?).map (·.name)).map some =
        parameters.map (textAt? "name") ∧
      (((parameters.filterMap FormField.ofParameter?).filter (·.required)).map (·.name)).map
          some = (parameters.filter isRequired).map (textAt? "name") := by
  induction parameters with
  | nil => exact ⟨rfl, rfl⟩
  | cons parameter rest ih =>
    obtain ⟨name, hname⟩ := h parameter (List.mem_cons_self ..)
    obtain ⟨field, hfield, rfl, hrequired⟩ := ofParameter?_of_named hname
    obtain ⟨hnames, hall⟩ := ih fun other hother => h other (List.mem_cons_of_mem _ hother)
    rw [List.filterMap_cons_some hfield]
    constructor
    · simp only [List.map_cons, hnames, hname]
    · simp only [List.filter_cons, hrequired]
      split
      · simp only [List.map_cons, hall, hname]
      · exact hall

/-- The outcome has the form as its one content: the fields are the properties of the schema, in
    their sequence, and those that are required are listed as such. -/
def HoldsForm (parameters : List Json) (request : Json) : Prop :=
  ∃ (mediaType : String) (schema properties : Keyed Json) (required : List String),
    request = .obj [("content", .obj [(mediaType, .obj [("schema", .obj schema)])])] ∧
      Keyed.get? "properties" schema = some (.obj properties) ∧
      (Keyed.keys properties).map some = parameters.map (textAt? "name") ∧
      Keyed.get? "required" schema =
        (if required.isEmpty then none else some (.arr (required.map .str))) ∧
      required.map some = (parameters.filter isRequired).map (textAt? "name")

theorem upgradeItems_eq (items : List Json) : upgradeItems items = items.map upgrade := by
  induction items with
  | nil => rfl
  | cons item rest ih => rw [upgradeItems, ih, List.map_cons]

theorem upgrade_texts (texts : List String) :
    upgrade (.arr (texts.map .str)) = .arr (texts.map .str) := by
  rw [upgrade, upgradeItems_eq, List.map_map]
  exact congrArg _ (List.map_congr_left fun _ _ => rfl)

/-- Upgrading an object schema keeps its list of required properties. -/
theorem upgrade_objectSchema {properties : Keyed Json} (h : HoldsObjects properties)
    (required : List String) :
    ∃ schema, upgrade (.obj ([("type", .str "object"), ("properties", .obj properties)] ++
        if required.isEmpty then [] else [("required", .arr (required.map .str))])) =
          .obj schema ∧
      Keyed.get? "properties" schema = some (.obj (Keyed.mapValues upgrade properties)) ∧
      Keyed.get? "required" schema =
        if required.isEmpty then none else some (.arr (required.map .str)) := by
  refine ⟨_, upgrade.eq_1 _, ?_, ?_⟩
  all_goals
    rw [get?_upgrade (by cases required <;> (simp [Keyed.keys])) (by decide)]
  · exact congrArg some (upgrade_of_holdsObjects h)
  · cases required with
    | nil => rfl
    | cons name rest => exact congrArg some (upgrade_texts (name :: rest))

/-- Form fields stand under their names. -/
theorem keys_schemas (fields : List FormField) :
    Keyed.keys (fields.map fun field => (field.name, Json.obj field.schema)) =
      fields.map (·.name) := by
  rw [Keyed.keys, List.map_map]
  rfl

theorem holdsObjects_schemas (fields : List FormField) :
    HoldsObjects (fields.map fun field => (field.name, Json.obj field.schema)) := by
  intro entry hentry
  obtain ⟨field, -, rfl⟩ := List.mem_map.mp hentry
  exact ⟨field.schema, rfl⟩

/-- The schema of a form, upgraded, has the fields as its properties. -/
theorem upgrade_formSchema {fields : List FormField} (h : (fields.map (·.name)).Nodup) :
    ∃ schema properties, upgrade (formSchema fields) = .obj schema ∧
      Keyed.get? "properties" schema = some (.obj properties) ∧
      Keyed.keys properties = fields.map (·.name) ∧
      Keyed.get? "required" schema =
        (if ((fields.filter (·.required)).map (·.name)).isEmpty then none
          else some (.arr (((fields.filter (·.required)).map (·.name)).map .str))) := by
  have hrequired : (fields.filter FormField.required).map (Json.str ·.name) =
      ((fields.filter (·.required)).map (·.name)).map .str := by
    rw [List.map_map]
    rfl
  obtain ⟨schema, hschema, hproperties, hlist⟩ :=
    upgrade_objectSchema (holdsObjects_schemas fields) ((fields.filter (·.required)).map (·.name))
  refine ⟨schema, _, ?_, hproperties, (Keyed.keys_mapValues upgrade _).trans (keys_schemas fields),
    hlist⟩
  rw [← hschema]
  unfold formSchema
  rw [Keyed.ofList_of_nodup (keys_schemas fields ▸ h), hrequired]
  dsimp only
  rw [List.isEmpty_map]

/-- The request of form fields with distinct names, upgraded, holds the form. -/
theorem holdsForm_formRequest (mediaTypes : List String) (hnamed : Named parameters)
    (hdistinct : (parameters.map (textAt? "name")).Nodup) :
    HoldsForm parameters (upgrade (formRequest mediaTypes parameters)) := by
  obtain ⟨hnames, hrequired⟩ := formFields_of_named hnamed
  obtain ⟨schema, properties, hschema, hproperties, hkeys, hlist⟩ :=
    upgrade_formSchema (nodup_names_of_parameters hdistinct)
  refine ⟨formType mediaTypes (parameters.filterMap FormField.ofParameter?), schema, properties, _,
    ?_, hproperties, hkeys ▸ hnames, hlist, hrequired⟩
  have hobject : ∃ inner, formSchema (parameters.filterMap FormField.ofParameter?) = .obj inner :=
    ⟨_, rfl⟩
  unfold formRequest
  rw [upgrade_singleton ⟨_, rfl⟩, upgrade_singleton ⟨_, rfl⟩, upgrade_singleton hobject, hschema]

end

/-! ## Fields of a converted operation -/

section

variable {context : Context} {merged : List Resolved} {fields : Keyed Json}

theorem nodup_keys_restOf (h : (Keyed.keys fields).Nodup) : (Keyed.keys (restOf fields)).Nodup :=
  Keyed.nodup_keys_removeAll h _

theorem get?_restOf_parameters (h : (Keyed.keys fields).Nodup) :
    Keyed.get? "parameters" (restOf fields) = none :=
  Keyed.get?_swapErase_self _ (Keyed.nodup_keys_removeAll h ["consumes", "produces", "schemes"])

/-- The fields of an operation with its parameters put in. -/
def withParameters (fields : Keyed Json) (kept : List Json) : Keyed Json :=
  if kept.isEmpty then fields else fields.insert "parameters" (.arr kept)

/-- The fields of an operation with its request put in, if it has one. -/
def withRequest (fields : Keyed Json) (request : Option Json) : Keyed Json :=
  match request with
  | some request => fields.insert "requestBody" request
  | none => fields

theorem nodup_keys_withParameters (h : (Keyed.keys fields).Nodup) (kept : List Json) :
    (Keyed.keys (withParameters fields kept)).Nodup := by
  unfold withParameters
  split
  · exact h
  · exact Keyed.nodup_keys_insert h

theorem nodup_keys_withRequest (h : (Keyed.keys fields).Nodup) (request : Option Json) :
    (Keyed.keys (withRequest fields request)).Nodup := by
  cases request with
  | none => exact h
  | some request => exact Keyed.nodup_keys_insert h

/-- The responses are put in last, and change no other field. -/
theorem get?_operationOf {key : String} (h : (Keyed.keys fields).Nodup)
    (hkey : key ≠ "responses") (request : Option Json) :
    Keyed.get? key (operationOf context fields merged request) =
      Keyed.get? key (withRequest (withParameters (restOf fields) (keptParameters merged))
        request) := by
  have hnodup : (Keyed.keys (withRequest (withParameters (restOf fields) (keptParameters merged))
      request)).Nodup :=
    nodup_keys_withRequest (nodup_keys_withParameters (nodup_keys_restOf h) _) _
  rw [← Keyed.get?_swapErase_of_ne hnodup hkey]
  exact Keyed.get?_insert_of_ne _ _ hkey

theorem nodup_keys_operationOf (h : (Keyed.keys fields).Nodup) (request : Option Json) :
    (Keyed.keys (operationOf context fields merged request)).Nodup :=
  Keyed.nodup_keys_insert (Keyed.nodup_keys_swapErase
    (nodup_keys_withRequest (nodup_keys_withParameters (nodup_keys_restOf h) _) _))

theorem get?_operationOf_parameters (h : (Keyed.keys fields).Nodup) (request : Option Json) :
    Keyed.get? "parameters" (operationOf context fields merged request) =
      if (keptParameters merged).isEmpty then none else some (.arr (keptParameters merged)) := by
  rw [get?_operationOf h (by decide)]
  have hrequest : Keyed.get? "parameters" (withRequest (withParameters (restOf fields)
      (keptParameters merged)) request) =
        Keyed.get? "parameters" (withParameters (restOf fields) (keptParameters merged)) := by
    cases request with
    | none => rfl
    | some request => exact Keyed.get?_insert_of_ne _ _ (by decide)
  rw [hrequest, withParameters]
  split
  · exact get?_restOf_parameters h
  · exact Keyed.get?_insert_self ..

/-- An operation without a request of its own has the one that its parameters amount to. -/
theorem get?_operationOf_requestBody (h : (Keyed.keys fields).Nodup)
    (hown : Keyed.get? "requestBody" fields = none) (request : Option Json) :
    Keyed.get? "requestBody" (operationOf context fields merged request) = request := by
  rw [get?_operationOf h (by decide)]
  cases request with
  | some request => exact Keyed.get?_insert_self ..
  | none =>
    show Keyed.get? "requestBody" (withParameters (restOf fields) (keptParameters merged)) = none
    have hrest : Keyed.get? "requestBody" (restOf fields) = none := by
      rw [← hown]
      exact Keyed.get?_removeAll h _ (by decide)
    unfold withParameters
    split
    · exact hrest
    · rw [Keyed.get?_insert_of_ne _ _ (by decide), hrest]

end

/-! ## Parameters of a converted operation -/

/-- The parameters that stand for a place in a form. -/
def formFields (merged : List Resolved) : List Json := (merged.map (·.1)).filter isFormField

/-- The parameters that are neither bodies nor form fields. -/
def plainParameters (merged : List Resolved) : List Resolved :=
  merged.filter fun parameter => !isBody parameter.1 && !isFormField parameter.1

/-- What a plain parameter becomes: the renamed reference that it came by, or else what it is
    converted to, upgraded. -/
def outParameter : Resolved → Json
  | (_, some reference) => .obj [("$ref", .str (renameReference reference))]
  | (parameter, none) => upgrade (convertParameter parameter)

/-- The operation of the outcome has these merged parameters: the plain ones in their sequence, and
    a request just when there is a body or a form field.  A request of form fields only holds the
    form. -/
structure KeepsParameters (merged : List Resolved) (operation : Keyed Json) : Prop where
  parameters : Keyed.get? "parameters" operation =
    if (plainParameters merged).isEmpty then none
    else some (.arr ((plainParameters merged).map outParameter))
  request : (∃ request, Keyed.get? "requestBody" operation = some request) ↔
    ∃ parameter ∈ merged, isBody parameter.1 = true ∨ isFormField parameter.1 = true
  form : formFields merged ≠ [] →
    ∃ request, Keyed.get? "requestBody" operation = some request ∧
      HoldsForm (formFields merged) request

section

variable {globals : Keyed Json} {shared own : List Json} {merged : List Resolved}
  {mediaTypes : List String} {path method : String} {request : Option Json}

theorem upgrade_keptParameter (parameter : Resolved) :
    upgrade (keptParameter parameter) = outParameter parameter := by
  obtain ⟨value, reference⟩ := parameter
  cases reference with
  | none => rfl
  | some reference => rfl

theorem upgrade_keptParameters (merged : List Resolved) :
    upgrade (.arr (keptParameters merged)) =
      .arr ((plainParameters merged).map outParameter) := by
  rw [upgrade, upgradeItems_eq, keptParameters, List.map_map]
  exact congrArg _ (List.map_congr_left fun parameter _ => upgrade_keptParameter parameter)

/-- Merged parameters have distinct names and locations. -/
theorem Merged.nodup (h : Merged globals shared own merged) :
    (merged.map fun parameter => parameterKey parameter.1).Nodup := by
  obtain ⟨resolved, -, hoverrides⟩ := h
  exact hoverrides.nodup_keys

/-- So form fields, whose location is the same, have distinct names. -/
theorem nodup_formFields (h : Merged globals shared own merged) :
    ((formFields merged).map (textAt? "name")).Nodup := by
  have hkeys : ((formFields merged).map parameterKey).Nodup := by
    have hall : ((merged.map (·.1)).map parameterKey).Nodup := by
      rw [List.map_map]
      exact h.nodup
    exact hall.sublist (List.filter_sublist.map _)
  have hpair : (formFields merged).map parameterKey =
      ((formFields merged).map (textAt? "name")).map fun name => (name, some "formData") := by
    rw [List.map_map]
    refine List.map_congr_left fun parameter hparameter => ?_
    have hform := (List.mem_filter.mp hparameter).2
    exact congrArg (Prod.mk _) (beq_iff_eq.mp hform)
  rw [hpair] at hkeys
  exact List.Nodup.of_map _ hkeys

theorem exists_isBody_iff :
    (merged.map (·.1)).filter isBody ≠ [] ↔ ∃ parameter ∈ merged, isBody parameter.1 = true := by
  rw [Ne, List.filter_eq_nil_iff, List.forall_mem_map]
  simp only [not_forall, not_not, exists_prop]

theorem exists_isFormField_iff :
    formFields merged ≠ [] ↔ ∃ parameter ∈ merged, isFormField parameter.1 = true := by
  rw [Ne, formFields, List.filter_eq_nil_iff, List.forall_mem_map]
  simp only [not_forall, not_not, exists_prop]

/-- What parameters amount to: a request for the last body, or else one for the form, if there are
    any fields. -/
theorem requestOf_cases (h : requestOf mediaTypes merged path method = .ok request) :
    ((∃ parameter ∈ merged, isBody parameter.1 = true) ∧ ∃ body, request = some body) ∨
      (¬ ∃ parameter ∈ merged, isBody parameter.1 = true) ∧
        request = if (formFields merged).isEmpty then none
          else some (formRequest mediaTypes (formFields merged)) := by
  rw [← exists_isBody_iff, not_not]
  unfold requestOf at h
  dsimp only at h
  split at h
  · next body hbody =>
    refine Or.inl ⟨fun hnone => ?_, ?_⟩
    · rw [hnone] at hbody
      cases hbody
    · split at h
      · exact ⟨_, (Except.ok.inj h).symm⟩
      · cases h
  · next hnone =>
    refine Or.inr ⟨List.getLast?_eq_none_iff.mp hnone, ?_⟩
    unfold formFields
    split at h
    · next hempty =>
      rw [hempty]
      exact (Except.ok.inj h).symm
    · next hfields =>
      rw [if_neg fun hempty => hfields (List.isEmpty_iff.mp hempty)]
      exact (Except.ok.inj h).symm

/-- Parameters amount to a request just when there is a body or a form field. -/
theorem exists_request_iff (h : requestOf mediaTypes merged path method = .ok request) :
    (∃ value, request = some value) ↔
      ∃ parameter ∈ merged, isBody parameter.1 = true ∨ isFormField parameter.1 = true := by
  simp only [and_or_left, exists_or, ← exists_isFormField_iff]
  rcases requestOf_cases h with ⟨hbody, hrequest⟩ | ⟨hnone, rfl⟩
  · exact iff_of_true hrequest (Or.inl hbody)
  · cases hfields : formFields merged with
    | nil =>
      refine iff_of_false (fun ⟨_, hvalue⟩ => by cases hvalue) ?_
      rintro (hbody | hform)
      · exact hnone hbody
      · exact hform rfl
    | cons field rest => exact iff_of_true ⟨_, rfl⟩ (Or.inr (List.cons_ne_nil _ _))

end

/-- Conversion neither loses nor makes up parameters.  Take an operation without a request of its
    own in a document that is converted, and its merged parameters, which are not both bodies and
    form fields, and whose form fields have names.  The operation of the outcome has these
    parameters, and its path item has none. -/
theorem convert_keeps_parameters {document output : Json} {path method : String}
    {item fields : Keyed Json} {merged : List Resolved} (hdistinct : document.Distinct)
    (hconvert : convert document = .ok output)
    (hitem : item? document path = some (.obj item)) (hmethod : method ∈ methodKeys)
    (hfields : Keyed.get? method item = some (.obj fields))
    (hown : Keyed.get? "requestBody" fields = none)
    (hmerged : Merged (fieldsOf (document.get? "parameters"))
      (itemsOf (Keyed.get? "parameters" item)) (itemsOf (Keyed.get? "parameters" fields)) merged)
    (hapart : (∃ parameter ∈ merged, isBody parameter.1 = true) → formFields merged = [])
    (hnamed : Named (formFields merged)) :
    ∃ outItem operation, item? output path = some (.obj outItem) ∧
      Keyed.get? "parameters" outItem = none ∧
      Keyed.get? method outItem = some (.obj operation) ∧ KeepsParameters merged operation := by
  cases document with
  | obj root =>
    obtain ⟨outItem, houtItem, hnodup, hshared, hall⟩ := convert_item hdistinct hconvert hitem
    obtain ⟨converted, hconverted, hoperation⟩ := hall method hmethod fields hfields
    have hkeys : (Keyed.keys fields).Nodup := by
      have hfields : (Json.obj item).get? method = some (.obj fields) := hfields
      have hdistinct := (distinct_of_item? hdistinct hitem).of_get? hfields
      rw [Json.Distinct] at hdistinct
      exact hdistinct.1
    rw [operation_eq hkeys] at hoperation
    obtain ⟨others, hothers, hoperation⟩ := bind_eq_ok_iff.mp hoperation
    obtain ⟨request, hrequest, hoperation⟩ := bind_eq_ok_iff.mp hoperation
    -- The merge has just one outcome.
    have hsame : (Context.of root).merge (itemsOf (Keyed.get? "parameters" item))
        (itemsOf (Keyed.get? "parameters" fields)) = .ok merged := merge_eq_ok_iff.mpr hmerged
    rw [hothers] at hsame
    cases hsame
    cases hoperation
    have hmethodKeys : ∀ method ∈ methodKeys, method ∉ renamedKeys := by decide
    have hout : (Keyed.keys (operationOf (Context.of root) fields merged request)).Nodup :=
      nodup_keys_operationOf hkeys request
    have hbody : Keyed.get? "requestBody" (renameFields (upgradeFields
        (operationOf (Context.of root) fields merged request))) = request.map upgrade := by
      rw [get?_upgrade hout (by decide), get?_operationOf_requestBody hkeys hown]
    refine ⟨_, renameFields (upgradeFields (operationOf (Context.of root) fields merged request)),
      houtItem, ?_, ?_, ?_, ?_, ?_⟩
    · rw [get?_upgrade hnodup (by decide), hshared]
      rfl
    · rw [get?_upgrade hnodup (hmethodKeys method hmethod), hconverted, Option.map_some, upgrade]
    · rw [get?_upgrade hout (by decide), get?_operationOf_parameters hkeys]
      have hempty : (keptParameters merged).isEmpty = (plainParameters merged).isEmpty := by
        rw [keptParameters, List.isEmpty_map]
        rfl
      rw [hempty]
      split
      · rfl
      · rw [Option.map_some, upgrade_keptParameters]
    · rw [hbody, ← exists_request_iff hrequest]
      simp only [Option.map_eq_some_iff]
      constructor
      · rintro ⟨_, value, hvalue, -⟩
        exact ⟨value, hvalue⟩
      · rintro ⟨value, hvalue⟩
        exact ⟨_, value, hvalue, rfl⟩
    · intro hform
      rcases requestOf_cases hrequest with ⟨hbodies, -⟩ | ⟨-, heq⟩
      · exact absurd (hapart hbodies) hform
      · rw [if_neg fun hempty => hform (List.isEmpty_iff.mp hempty)] at heq
        rw [hbody, heq, Option.map_some]
        exact ⟨_, rfl, holdsForm_formRequest _ hnamed (nodup_formFields hmerged)⟩
  | _ => cases hconvert

/-- An operation with two form fields, of which it replaces one that its path has, and with a
    header that its path refers to. -/
def signUpFields : Keyed Json := [("parameters", .arr [
  .obj [("name", .str "name"), ("in", .str "formData"), ("type", .str "string"),
    ("required", .bool true)],
  .obj [("name", .str "photo"), ("in", .str "formData"), ("type", .str "file")]])]

/-- The path item of this operation. -/
def signUpItem : Keyed Json := [
  ("parameters", .arr [
    .obj [("name", .str "name"), ("in", .str "formData"), ("type", .str "integer")],
    .obj [("$ref", .str "#/parameters/trace")]]),
  ("post", .obj signUpFields)]

/-- The document of this path item. -/
def signUp : Json := .obj [
  ("swagger", .str "2.0"),
  ("parameters", .obj [("trace", .obj [("name", .str "X-Trace"), ("in", .str "header")])]),
  ("paths", .obj [("/pets", .obj signUpItem)])]

/-- The merged parameters of this operation. -/
def signUpParameters : List Resolved := [
  (.obj [("name", .str "name"), ("in", .str "formData"), ("type", .str "string"),
    ("required", .bool true)], none),
  (.obj [("name", .str "X-Trace"), ("in", .str "header")], some "#/parameters/trace"),
  (.obj [("name", .str "photo"), ("in", .str "formData"), ("type", .str "file")], none)]

theorem signUp_keeps_parameters :
    ∃ output outItem operation, convert signUp = .ok output ∧
      item? output "/pets" = some (.obj outItem) ∧ Keyed.get? "parameters" outItem = none ∧
      Keyed.get? "post" outItem = some (.obj operation) ∧
      KeepsParameters signUpParameters operation := by
  have hdistinct : signUp.Distinct := by
    simp [signUp, signUpItem, signUpFields, Json.Distinct, Json.DistinctFields,
      Json.DistinctItems, Keyed.keys]
  obtain ⟨output, houtput⟩ : ∃ output, convert signUp = .ok output := ⟨_, rfl⟩
  have hmerge : (Context.of (fieldsOf signUp)).merge (itemsOf (Keyed.get? "parameters" signUpItem))
      (itemsOf (Keyed.get? "parameters" signUpFields)) = .ok signUpParameters := rfl
  have hbodies : ¬ ∃ parameter ∈ signUpParameters, isBody parameter.1 = true := by
    decide
  have hnamed : Named (formFields signUpParameters) := by
    intro parameter hparameter
    rcases List.mem_cons.mp hparameter with rfl | hparameter
    · exact ⟨"name", rfl⟩
    · rw [List.mem_singleton.mp hparameter]
      exact ⟨"photo", rfl⟩
  have hitem : item? signUp "/pets" = some (.obj signUpItem) := rfl
  have hmethod : "post" ∈ methodKeys := by decide
  have hfields : Keyed.get? "post" signUpItem = some (.obj signUpFields) := rfl
  obtain ⟨outItem, operation, h⟩ := convert_keeps_parameters hdistinct houtput hitem hmethod
    hfields rfl (merge_eq_ok_iff.mp hmerge) (fun h => absurd h hbodies) hnamed
  exact ⟨output, outItem, operation, houtput, h⟩

end Swagger
end TypedClient
