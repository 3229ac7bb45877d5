/-
  TypedClient.Proofs.Operation.Parameters

  The shape of the parameters against the lists of their fields by location.  The lists keep every
  field of a parameter of a known location; the shape is keyed by the name of the field alone, and
  a parameter of an unknown location takes the fields of its names out of it.
-/
import TypedClient.Proofs.Document.Local
import TypedClient.Proofs.Operation.Requests
import TypedClient.Proofs.Override
import TypedClient.Proofs.Schema.Distinct

namespace TypedClient

open Document

namespace Operation

variable {document : Json}

/-! ## Parameters by location -/

/-- Are the fields of the parameter listed? -/
def isListed (parameter : Parameter) : Bool :=
  parameter.location == "query" || parameter.location == "header" ||
    parameter.location == "cookie"

/-- Are the fields of the parameter dropped again, as its location is not known? -/
def isDropped (parameter : Parameter) : Bool :=
  !isListed parameter && parameter.location != "path"

/-- Names of the fields that a parameter adds. -/
def fieldNames (document : Json) (parameter : Parameter) : List String :=
  (parameterFields document parameter).map (·.1)

/-- Names of the fields of parameters that are in one location. -/
def fieldsIn (document : Json) (location : String) (parameters : List Parameter) : List String :=
  (parameters.filter (·.location == location)).flatMap (fieldNames document)

/-- Some item is picked by `pick`, given the items before it, and all later ones are passed. -/
def Picks {α : Type} (pick : List α → α → Prop) (pass : α → Prop) (items : List α) : Prop :=
  ∃ before item after, items = before ++ item :: after ∧ pick before item ∧
    ∀ other ∈ after, pass other

/-- With one more item, that one is picked, or one before it is and that one is passed. -/
theorem picks_concat {α : Type} {pick : List α → α → Prop} {pass : α → Prop} {items : List α}
    {last : α} :
    Picks pick pass (items ++ [last]) ↔ pick items last ∨ (Picks pick pass items ∧ pass last) := by
  constructor
  · rintro ⟨before, item, after, heq, hpick, hpass⟩
    rcases List.eq_nil_or_concat after with rfl | ⟨middle, other, rfl⟩
    · obtain ⟨rfl, hitem⟩ := List.append_inj' heq rfl
      cases hitem
      exact Or.inl hpick
    · rw [List.concat_eq_append] at heq hpass
      have happend : before ++ item :: (middle ++ [other]) = (before ++ item :: middle) ++ [other] := by
        simp
      obtain ⟨rfl, hlast⟩ := List.append_inj' (heq.trans happend) rfl
      cases hlast
      refine Or.inr ⟨⟨before, item, middle, rfl, hpick, ?_⟩, ?_⟩
      · exact fun other hother => hpass other (List.mem_append_left _ hother)
      · exact hpass last (List.mem_append_right _ (List.mem_singleton.mpr rfl))
  · rintro (hpick | ⟨⟨before, item, after, rfl, hpick, hpass⟩, hlast⟩)
    · exact ⟨items, last, [], rfl, hpick, fun _ h => by cases h⟩
    · refine ⟨before, item, after ++ [last], by simp, hpick, ?_⟩
      intro other hother
      rcases List.mem_append.mp hother with hother | hother
      · exact hpass other hother
      · rw [List.mem_singleton.mp hother]
        exact hlast

/-- A listed parameter has the field, and no later parameter drops it. -/
def Declared (document : Json) (parameters : List Parameter) (field : String) : Prop :=
  Picks (fun _ parameter => isListed parameter = true ∧ field ∈ fieldNames document parameter)
    (fun other => isDropped other = true → field ∉ fieldNames document other) parameters

/-! ## Fields added and dropped -/

section Shape

variable {shape : ParamsShape}

theorem mem_keys_addFields (fields : List (String × SchemaNode × Bool)) (shape : ParamsShape)
    (field : String) :
    field ∈ Keyed.keys (fields.foldl ParamsShape.addField shape).properties ↔
      field ∈ Keyed.keys shape.properties ∨ field ∈ fields.map (·.1) := by
  induction fields generalizing shape with
  | nil => simp
  | cons first rest ih =>
    obtain ⟨name, node, required⟩ := first
    rw [List.foldl_cons, ih, List.map_cons, List.mem_cons, ← or_assoc]
    exact or_congr_left Keyed.mem_keys_insert

theorem mem_keys_dropFields (names : List String) (shape : ParamsShape) (field : String) :
    field ∈ Keyed.keys (names.foldl ParamsShape.dropField shape).properties ↔
      field ∈ Keyed.keys shape.properties ∧ field ∉ names := by
  induction names generalizing shape with
  | nil => simp
  | cons first rest ih =>
    rw [List.foldl_cons, ih, List.mem_cons, not_or, ← and_assoc]
    exact and_congr_left' Keyed.mem_keys_erase

/-- Every required name is a property. -/
def RequiredDeclared (shape : ParamsShape) : Prop :=
  ∀ name ∈ shape.required, name ∈ Keyed.keys shape.properties

theorem RequiredDeclared.addFields (h : RequiredDeclared shape)
    (fields : List (String × SchemaNode × Bool)) :
    RequiredDeclared (fields.foldl ParamsShape.addField shape) := by
  induction fields generalizing shape with
  | nil => exact h
  | cons first rest ih =>
    obtain ⟨name, node, required⟩ := first
    rw [List.foldl_cons]
    apply ih
    intro other hother
    rw [ParamsShape.addField]
    rw [ParamsShape.addField] at hother
    dsimp only at hother ⊢
    rw [Keyed.mem_keys_insert]
    split at hother
    · rcases List.mem_append.mp hother with hother | hother
      · exact Or.inl (h other hother)
      · exact Or.inr (List.mem_singleton.mp hother)
    · exact Or.inl (h other hother)

theorem RequiredDeclared.dropFields (h : RequiredDeclared shape) (names : List String) :
    RequiredDeclared (names.foldl ParamsShape.dropField shape) := by
  induction names generalizing shape with
  | nil => exact h
  | cons first rest ih =>
    rw [List.foldl_cons]
    apply ih
    intro other hother
    obtain ⟨hother, hne⟩ := List.mem_filter.mp hother
    exact Keyed.mem_keys_erase.mpr ⟨h other hother, by simpa using hne⟩

/-- Adding fields lists nothing. -/
theorem lists_addFields (fields : List (String × SchemaNode × Bool)) (shape : ParamsShape) :
    (fields.foldl ParamsShape.addField shape).urlParams = shape.urlParams ∧
      (fields.foldl ParamsShape.addField shape).headers = shape.headers ∧
        (fields.foldl ParamsShape.addField shape).cookies = shape.cookies := by
  induction fields generalizing shape with
  | nil => exact ⟨rfl, rfl, rfl⟩
  | cons first rest ih => exact ih (shape.addField first)

/-- Dropping fields changes no list. -/
theorem lists_dropFields (names : List String) (shape : ParamsShape) :
    (names.foldl ParamsShape.dropField shape).urlParams = shape.urlParams ∧
      (names.foldl ParamsShape.dropField shape).headers = shape.headers ∧
        (names.foldl ParamsShape.dropField shape).cookies = shape.cookies := by
  induction names generalizing shape with
  | nil => exact ⟨rfl, rfl, rfl⟩
  | cons first rest ih => exact ih (shape.dropField first)

end Shape

/-! ## One more parameter -/

section Parameter

variable {shape : ParamsShape} {parameter : Parameter}

/-- The shape with the fields of a parameter, before its location counts. -/
def withFields (document : Json) (shape : ParamsShape) (parameter : Parameter) : ParamsShape :=
  (parameterFields document parameter).foldl ParamsShape.addField shape

/-- A parameter in the path does nothing; one of a known location lists its fields too, and one of
    an unknown location drops them again. -/
theorem addParameter_cases (document : Json) (shape : ParamsShape) (parameter : Parameter) :
    (parameter.location = "path" ∧ shape.addParameter document parameter = shape) ∨
    (parameter.location = "query" ∧ shape.addParameter document parameter =
      { withFields document shape parameter with
        urlParams := (withFields document shape parameter).urlParams ++
          fieldNames document parameter }) ∨
    (parameter.location = "header" ∧ shape.addParameter document parameter =
      { withFields document shape parameter with
        headers := (withFields document shape parameter).headers ++
          fieldNames document parameter }) ∨
    (parameter.location = "cookie" ∧ shape.addParameter document parameter =
      { withFields document shape parameter with
        cookies := (withFields document shape parameter).cookies ++
          fieldNames document parameter }) ∨
    (isDropped parameter = true ∧ shape.addParameter document parameter =
      (fieldNames document parameter).foldl ParamsShape.dropField
        (withFields document shape parameter)) := by
  unfold ParamsShape.addParameter
  split
  · next hpath => exact Or.inl ⟨beq_iff_eq.mp hpath, rfl⟩
  · next hpath =>
    dsimp only
    split
    · next hlocation => exact Or.inr (Or.inl ⟨hlocation, rfl⟩)
    · next hlocation => exact Or.inr (Or.inr (Or.inl ⟨hlocation, rfl⟩))
    · next hlocation => exact Or.inr (Or.inr (Or.inr (Or.inl ⟨hlocation, rfl⟩)))
    · next hquery hheader hcookie =>
      have hdropped : isDropped parameter = true := by simp_all [isDropped, isListed]
      exact Or.inr (Or.inr (Or.inr (Or.inr ⟨hdropped, rfl⟩)))

theorem mem_keys_withFields (field : String) :
    field ∈ Keyed.keys (withFields document shape parameter).properties ↔
      field ∈ Keyed.keys shape.properties ∨ field ∈ fieldNames document parameter :=
  mem_keys_addFields _ shape field

/-- A field of the shape is one of a listed parameter, or was there before and is not dropped. -/
theorem mem_keys_addParameter (field : String) :
    field ∈ Keyed.keys (shape.addParameter document parameter).properties ↔
      (isListed parameter = true ∧ field ∈ fieldNames document parameter) ∨
        (field ∈ Keyed.keys shape.properties ∧
          (isDropped parameter = true → field ∉ fieldNames document parameter)) := by
  rcases addParameter_cases document shape parameter with ⟨hlocation, heq⟩ | ⟨hlocation, heq⟩ |
    ⟨hlocation, heq⟩ | ⟨hlocation, heq⟩ | ⟨hdropped, heq⟩
  · simp [heq, isListed, isDropped, hlocation]
  · simp [heq, isListed, isDropped, hlocation, mem_keys_withFields, or_comm]
  · simp [heq, isListed, isDropped, hlocation, mem_keys_withFields, or_comm]
  · simp [heq, isListed, isDropped, hlocation, mem_keys_withFields, or_comm]
  · have hlisted : isListed parameter = false := by
      unfold isDropped at hdropped
      simp_all
    rw [heq, mem_keys_dropFields, mem_keys_withFields, hlisted, hdropped]
    constructor
    · rintro ⟨hold | hown, hfree⟩
      · exact Or.inr ⟨hold, fun _ => hfree⟩
      · exact absurd hown hfree
    · rintro (⟨hfalse, -⟩ | ⟨hold, hfree⟩)
      · cases hfalse
      · exact ⟨Or.inl hold, hfree rfl⟩

theorem RequiredDeclared.addParameter (h : RequiredDeclared shape) :
    RequiredDeclared (shape.addParameter document parameter) := by
  have hfields : RequiredDeclared (withFields document shape parameter) := h.addFields _
  rcases addParameter_cases document shape parameter with ⟨-, heq⟩ | ⟨-, heq⟩ | ⟨-, heq⟩ |
    ⟨-, heq⟩ | ⟨-, heq⟩
  · rwa [heq]
  · rw [heq]
    exact hfields
  · rw [heq]
    exact hfields
  · rw [heq]
    exact hfields
  · rw [heq]
    exact hfields.dropFields _

/-- A parameter adds its fields to the list of its location only. -/
theorem lists_addParameter :
    (shape.addParameter document parameter).urlParams = shape.urlParams ++
        (if parameter.location == "query" then fieldNames document parameter else []) ∧
      (shape.addParameter document parameter).headers = shape.headers ++
        (if parameter.location == "header" then fieldNames document parameter else []) ∧
      (shape.addParameter document parameter).cookies = shape.cookies ++
        (if parameter.location == "cookie" then fieldNames document parameter else []) := by
  have hfields := lists_addFields (parameterFields document parameter) shape
  have hdrop := lists_dropFields (fieldNames document parameter)
    (withFields document shape parameter)
  rcases addParameter_cases document shape parameter with ⟨hlocation, heq⟩ | ⟨hlocation, heq⟩ |
    ⟨hlocation, heq⟩ | ⟨hlocation, heq⟩ | ⟨hdropped, heq⟩
  · simp [heq, hlocation]
  · simp [heq, hlocation, withFields, hfields]
  · simp [heq, hlocation, withFields, hfields]
  · simp [heq, hlocation, withFields, hfields]
  · have hlocation : ¬ parameter.location = "query" ∧ ¬ parameter.location = "header" ∧
        ¬ parameter.location = "cookie" := by
      simp [isDropped, isListed] at hdropped
      tauto
    rw [heq, hdrop.1, hdrop.2.1, hdrop.2.2]
    simp [hlocation, withFields, hfields]

end Parameter

/-! ## All parameters -/

/-- What the shape of parameters that have been read holds. -/
structure Shapes (document : Json) (read : List Parameter) (shape : ParamsShape) : Prop where
  keys : ∀ field, field ∈ Keyed.keys shape.properties ↔ Declared document read field
  required : RequiredDeclared shape
  urlParams : shape.urlParams = fieldsIn document "query" read
  headers : shape.headers = fieldsIn document "header" read
  cookies : shape.cookies = fieldsIn document "cookie" read

theorem shapes_nil : Shapes document [] {} where
  keys field := by simp [Keyed.keys, Declared, Picks]
  required _ h := by cases h
  urlParams := rfl
  headers := rfl
  cookies := rfl

theorem fieldsIn_concat (location : String) (read : List Parameter) (parameter : Parameter) :
    fieldsIn document location (read ++ [parameter]) = fieldsIn document location read ++
      if parameter.location == location then fieldNames document parameter else [] := by
  unfold fieldsIn
  rw [List.filter_append, List.flatMap_append]
  cases hlocation : parameter.location == location <;> simp [hlocation]

theorem Shapes.addParameter {read : List Parameter} {shape : ParamsShape}
    (h : Shapes document read shape) (parameter : Parameter) :
    Shapes document (read ++ [parameter]) (shape.addParameter document parameter) := by
  obtain ⟨hurlParams, hheaders, hcookies⟩ := lists_addParameter
  refine ⟨fun field => ?_, h.required.addParameter, ?_, ?_, ?_⟩
  · rw [mem_keys_addParameter, Declared, picks_concat, h.keys, Declared]
  · rw [hurlParams, fieldsIn_concat, h.urlParams]
  · rw [hheaders, fieldsIn_concat, h.headers]
  · rw [hcookies, fieldsIn_concat, h.cookies]

/-- The shape of the parameters that apply to an operation. -/
theorem shapes_ofParameters (document : Json) (shared own : List (MaybeRef Parameter)) :
    Shapes document (mergedParameters document shared own)
      (ParamsShape.ofParameters document shared own) := by
  have hrest : ∀ (rest read : List Parameter) (shape : ParamsShape),
      Shapes document read shape →
        Shapes document (read ++ rest) (rest.foldl (ParamsShape.addParameter document) shape) := by
    intro rest
    induction rest with
    | nil =>
      intro read shape h
      rwa [List.append_nil]
    | cons parameter rest ih =>
      intro read shape h
      have hlater := ih _ _ (h.addParameter parameter)
      rwa [List.append_assoc, List.singleton_append] at hlater
  exact hrest _ [] {} shapes_nil

/-! ## Fields that are listed -/

/-- The fields that are listed for parameters. -/
def listedFields (document : Json) (parameters : List Parameter) : List String :=
  (parameters.filter isListed).flatMap (fieldNames document)

/-- The fields that a shape lists, location by location. -/
def ParamsShape.listed (shape : ParamsShape) : List String :=
  shape.urlParams ++ shape.headers ++ shape.cookies

theorem mem_listedFields {parameters : List Parameter} {field : String} :
    field ∈ listedFields document parameters ↔
      ∃ parameter ∈ parameters, isListed parameter = true ∧ field ∈ fieldNames document parameter := by
  simp [listedFields, List.mem_flatMap, and_assoc]

/-- The lists by location hold the fields of all listed parameters. -/
theorem fieldsIn_perm (parameters : List Parameter) :
    (fieldsIn document "query" parameters ++ fieldsIn document "header" parameters ++
      fieldsIn document "cookie" parameters).Perm (listedFields document parameters) := by
  rw [List.perm_iff_count]
  intro field
  induction parameters with
  | nil => rfl
  | cons parameter rest ih =>
    simp only [fieldsIn, listedFields, List.count_append] at ih ⊢
    by_cases hquery : parameter.location = "query"
    · simp [isListed, hquery] at ih ⊢
      omega
    by_cases hheader : parameter.location = "header"
    · simp [isListed, hheader] at ih ⊢
      omega
    by_cases hcookie : parameter.location = "cookie"
    · simp [isListed, hcookie] at ih ⊢
      omega
    · simp [isListed, hquery, hheader, hcookie] at ih ⊢
      omega

theorem Shapes.listed_perm {parameters : List Parameter} {shape : ParamsShape}
    (h : Shapes document parameters shape) :
    shape.listed.Perm (listedFields document parameters) := by
  rw [ParamsShape.listed, h.urlParams, h.headers, h.cookies]
  exact fieldsIn_perm parameters

/-- A declared field is listed. -/
theorem Declared.mem_listedFields {parameters : List Parameter} {field : String}
    (h : Declared document parameters field) : field ∈ listedFields document parameters := by
  obtain ⟨before, parameter, after, rfl, ⟨hlisted, hfield⟩, -⟩ := h
  exact Operation.mem_listedFields.mpr ⟨parameter, by simp, hlisted, hfield⟩

/-- The first parameter is listed, and the second one, which comes later, has one of its fields and
    is not in the path. -/
def Clash (document : Json) (first second : Parameter) : Prop :=
  isListed first = true ∧ second.location ≠ "path" ∧
    ∃ field ∈ fieldNames document first, field ∈ fieldNames document second

/-- A parameter that is not in the path is listed or dropped. -/
theorem isListed_or_isDropped {parameter : Parameter} (h : parameter.location ≠ "path") :
    isListed parameter = true ∨ isDropped parameter = true := by
  unfold isDropped
  cases isListed parameter <;> simp [h]

theorem location_ne_of_isListed {parameter : Parameter} (h : isListed parameter = true) :
    parameter.location ≠ "path" := by
  intro hlocation
  simp [isListed, hlocation] at h

theorem location_ne_of_isDropped {parameter : Parameter} (h : isDropped parameter = true) :
    parameter.location ≠ "path" := by
  intro hlocation
  simp [isDropped, hlocation] at h

/-- Before further parameters, a field of a listed parameter is declared when none of them drops
    it. -/
theorem declared_cons {parameter : Parameter} {rest : List Parameter} {field : String} :
    Declared document (parameter :: rest) field ↔
      (isListed parameter = true ∧ field ∈ fieldNames document parameter ∧
        ∀ other ∈ rest, isDropped other = true → field ∉ fieldNames document other) ∨
      Declared document rest field := by
  constructor
  · rintro ⟨before, own, after, heq, ⟨hlisted, hfield⟩, hkept⟩
    cases before with
    | nil =>
      cases heq
      exact Or.inl ⟨hlisted, hfield, hkept⟩
    | cons first before =>
      cases heq
      exact Or.inr ⟨before, own, after, rfl, ⟨hlisted, hfield⟩, hkept⟩
  · rintro (⟨hlisted, hfield, hkept⟩ | ⟨before, own, after, rfl, hpick, hkept⟩)
    · exact ⟨[], parameter, rest, rfl, ⟨hlisted, hfield⟩, hkept⟩
    · exact ⟨parameter :: before, own, after, rfl, hpick, hkept⟩

/-- Every field is listed once and declared just when no two parameters clash. -/
theorem listed_once_iff {parameters : List Parameter}
    (hnames : ∀ parameter ∈ parameters, (fieldNames document parameter).Nodup) :
    ((listedFields document parameters).Nodup ∧
      ∀ field ∈ listedFields document parameters, Declared document parameters field) ↔
    parameters.Pairwise fun first second => ¬ Clash document first second := by
  induction parameters with
  | nil => simp [listedFields]
  | cons parameter rest ih =>
    have ih := ih fun other hother => hnames other (List.mem_cons_of_mem _ hother)
    rw [List.pairwise_cons, ← ih]
    cases hlisted : isListed parameter with
    | false =>
      have hfields : listedFields document (parameter :: rest) = listedFields document rest := by
        simp [listedFields, hlisted]
      rw [hfields]
      simp [declared_cons, Clash, hlisted]
    | true =>
      have hfields : listedFields document (parameter :: rest) =
          fieldNames document parameter ++ listedFields document rest := by
        simp [listedFields, hlisted]
      rw [hfields, List.nodup_append']
      constructor
      · rintro ⟨⟨-, hrest, hdisjoint⟩, hdeclared⟩
        -- What the rest lists is declared there, as the parameter has none of it.
        have hkeep : ∀ field ∈ listedFields document rest, Declared document rest field := by
          intro field hfield
          rcases declared_cons.mp (hdeclared field (List.mem_append_right _ hfield)) with
            ⟨-, hown, -⟩ | hlater
          · exact absurd hfield (hdisjoint hown)
          · exact hlater
        refine ⟨fun other hother hclash => ?_, hrest, hkeep⟩
        obtain ⟨-, hlocation, field, hown, hshared⟩ := hclash
        rcases isListed_or_isDropped hlocation with hother' | hother'
        · exact hdisjoint hown (mem_listedFields.mpr ⟨other, hother, hother', hshared⟩)
        · rcases declared_cons.mp (hdeclared field (List.mem_append_left _ hown)) with
            ⟨-, -, hkept⟩ | hlater
          · exact hkept other hother hother' hshared
          · exact hdisjoint hown hlater.mem_listedFields
      · rintro ⟨hclash, hrest, hdeclared⟩
        have hdisjoint : List.Disjoint (fieldNames document parameter)
            (listedFields document rest) := by
          intro field hown hfield
          obtain ⟨other, hother, hother', hshared⟩ := mem_listedFields.mp hfield
          exact hclash other hother
            ⟨hlisted, location_ne_of_isListed hother', field, hown, hshared⟩
        refine ⟨⟨hnames parameter (List.mem_cons_self ..), hrest, hdisjoint⟩, ?_⟩
        intro field hfield
        rw [declared_cons]
        rcases List.mem_append.mp hfield with hown | hfield
        · refine Or.inl ⟨hlisted, hown, fun other hother hother' hshared => ?_⟩
          exact hclash other hother
            ⟨hlisted, location_ne_of_isDropped hother', field, hown, hshared⟩
        · exact Or.inr (hdeclared field hfield)

/-! ## Names of fields -/

/-- A field that is read from a value with distinct keys has distinct keys. -/
theorem distinct_of_fieldsOf? {names : List String} {value : Json} (h : value.Distinct)
    {fields : List (Option Json)} (hfields : fieldsOf? names value = some fields)
    {field : Json} (hfield : some field ∈ fields) : field.Distinct := by
  rcases standsIn_of_fieldsOf? hfields hfield with ⟨key, hkey⟩ | ⟨items, rfl, hitem⟩
  · exact h.of_get? hkey
  · rw [Json.Distinct] at h
    exact h.of_mem hitem

/-- The schema of a parameter that is read from a value with distinct keys has distinct keys. -/
theorem distinct_of_ofJson? {value schema : Json} {parameter : Parameter} (h : value.Distinct)
    (hparameter : Parameter.ofJson? value = some parameter)
    (hschema : parameter.schema = some schema) : schema.Distinct := by
  unfold Parameter.ofJson? at hparameter
  extract_lets isComplete at hparameter
  split at hparameter
  · next name location required field hfields =>
    split at hparameter
    · obtain ⟨name, -, hparameter⟩ := Option.bind_eq_some_iff.mp hparameter
      obtain ⟨location, -, hparameter⟩ := Option.bind_eq_some_iff.mp hparameter
      obtain ⟨required, -, hparameter⟩ := Option.bind_eq_some_iff.mp hparameter
      obtain ⟨own, hown, hparameter⟩ := Option.bind_eq_some_iff.mp hparameter
      cases hparameter
      rw [show own = some schema from hschema] at hown
      unfold orNothing at hown
      split at hown
      · cases hown
      · cases hown
      · cases hown
        exact distinct_of_fieldsOf? h hfields (by simp)
    · cases hparameter
  · cases hparameter

/-- The schemas of inline parameters have distinct keys. -/
def DistinctInline (parameters : List (MaybeRef Parameter)) : Prop :=
  ∀ parameter, MaybeRef.item parameter ∈ parameters →
    ∀ schema, parameter.schema = some schema → schema.Distinct

/-- A parameter that a reference leads to comes from a value of the document. -/
theorem exists_of_followRef {reference : String} {hops : Nat} {parameter : Parameter}
    (h : followRef document Parameter.ofJson? hops reference = some parameter) :
    ∃ reference value, Reference.resolve document reference = some value ∧
      Parameter.ofJson? value = some parameter := by
  induction hops generalizing reference with
  | zero => cases h
  | succ hops ih =>
    obtain ⟨value, hvalue, h⟩ := Option.bind_eq_some_iff.mp h
    obtain ⟨found, hfound, h⟩ := Option.bind_eq_some_iff.mp h
    cases found with
    | ref next => exact ih h
    | item item =>
      cases h
      unfold MaybeRef.ofJson? at hfound
      split at hfound
      · cases hfound
      · obtain ⟨own, hown, heq⟩ := Option.map_eq_some_iff.mp hfound
        cases heq
        exact ⟨reference, value, hvalue, hown⟩

/-- The schemas of the parameters that apply to an operation have distinct keys. -/
theorem distinct_of_mem_mergedParameters (hdocument : document.Distinct)
    {shared own : List (MaybeRef Parameter)} (hinline : DistinctInline (shared ++ own))
    {parameter : Parameter} (h : parameter ∈ mergedParameters document shared own) {schema : Json}
    (hschema : parameter.schema = some schema) : schema.Distinct := by
  obtain ⟨written, hwritten, hresolve⟩ := List.mem_filterMap.mp (mem_overrideAll h)
  cases written with
  | item item =>
    obtain rfl : item = parameter := Option.some.inj hresolve
    exact hinline item hwritten schema hschema
  | ref reference =>
    obtain ⟨reference, value, hvalue, hparameter⟩ := exists_of_followRef hresolve
    exact distinct_of_ofJson? (Reference.distinct_of_resolve hdocument hvalue) hparameter hschema

/-- The schema with properties is the one of the node, or the target of its reference. -/
theorem deepObject?_cases {node : SchemaNode} {object : Schema}
    (h : deepObject? document node = some object) :
    ∃ schema, node.toSchema? = some schema ∧
      (object = schema ∨ ∃ reference, (Reference.resolveNode document reference).bind
        SchemaNode.toSchema? = some object) := by
  unfold deepObject? at h
  obtain ⟨schema, hschema, h⟩ := Option.bind_eq_some_iff.mp h
  refine ⟨schema, hschema, ?_⟩
  dsimp only at h
  split at h
  · next reference _ =>
    obtain ⟨target, htarget, h⟩ := Option.bind_eq_some_iff.mp h
    split at h
    · cases h
      exact Or.inr ⟨reference, htarget⟩
    · cases h
  · obtain ⟨target, htarget, h⟩ := Option.bind_eq_some_iff.mp h
    cases htarget
    split at h
    · cases h
      exact Or.inl rfl
    · cases h

theorem distinct_of_deepObject? (hdocument : document.Distinct) {parameter : Parameter}
    (h : ∀ schema, parameter.schema = some schema → schema.Distinct) {object : Schema}
    (hobject : deepObject? document (parameterNode parameter) = some object) : object.Distinct := by
  obtain ⟨schema, hschema, rfl | ⟨reference, htarget⟩⟩ := deepObject?_cases hobject
  · unfold parameterNode at hschema
    split at hschema
    · next value hvalue => exact SchemaNode.distinct_of_toSchema? (h value hvalue) hschema
    · cases hschema
      refine Schema.Distinct.cleanup (.intro (fun _ h => by cases h) ?_)
      intro composition nodes member hnodes
      cases composition <;> cases hnodes
  · obtain ⟨node, hnode, htarget⟩ := Option.bind_eq_some_iff.mp htarget
    obtain ⟨value, hvalue, rfl⟩ := Option.map_eq_some_iff.mp hnode
    have hvalue : value.Distinct := Reference.distinct_of_resolve hdocument hvalue
    exact SchemaNode.distinct_of_toSchema? hvalue htarget

/-- A parameter has each of its fields once. -/
theorem nodup_fieldNames (hdocument : document.Distinct) {parameter : Parameter}
    (h : ∀ schema, parameter.schema = some schema → schema.Distinct) :
    (fieldNames document parameter).Nodup := by
  unfold fieldNames parameterFields
  dsimp only
  split
  · next object hobject =>
    have hobject : object.Distinct := distinct_of_deepObject? hdocument h hobject
    have hkeys : (Keyed.keys (object.properties.getD [])).Nodup := by
      cases hproperties : object.properties with
      | none => exact List.nodup_nil
      | some properties => exact hobject.properties properties hproperties
    have hinjective : Function.Injective fun key => parameter.name ++ "[" ++ key ++ "]" := by
      intro first second heq
      have hlist := congrArg String.toList heq
      exact String.toList_inj.mp (by simpa using hlist)
    have hnames : (((object.properties.getD []).map fun field =>
        (parameter.name ++ "[" ++ field.1 ++ "]", field.2,
          (object.required.getD []).contains field.1)).map (·.1)) =
        (Keyed.keys (object.properties.getD [])).map
          fun key => parameter.name ++ "[" ++ key ++ "]" := by
      rw [Keyed.keys, List.map_map, List.map_map]
      rfl
    rw [hnames]
    exact hkeys.map hinjective
  · exact List.nodup_singleton _

/-! ## Fields that are lost -/

/-- A parameter drops the field of a listed one before it, and no later one is listed with it. -/
def Lost (document : Json) (parameters : List Parameter) (field : String) : Prop :=
  Picks (fun before parameter => isDropped parameter = true ∧
      field ∈ fieldNames document parameter ∧ field ∈ listedFields document before)
    (fun other => isListed other = true → field ∉ fieldNames document other) parameters

theorem mem_listedFields_concat {read : List Parameter} {parameter : Parameter} {field : String} :
    field ∈ listedFields document (read ++ [parameter]) ↔ field ∈ listedFields document read ∨
      (isListed parameter = true ∧ field ∈ fieldNames document parameter) := by
  simp only [mem_listedFields, List.mem_append, List.mem_singleton, or_and_right, exists_or,
    exists_eq_left]

/-- A listed field is not declared just when it is lost. -/
theorem lost_iff {parameters : List Parameter} {field : String} :
    field ∈ listedFields document parameters ∧ ¬ Declared document parameters field ↔
      Lost document parameters field := by
  induction parameters using List.reverseRecOn with
  | nil => simp [listedFields, Lost, Picks]
  | append_singleton read parameter ih =>
    have hexclusive : isListed parameter = true → ¬ isDropped parameter = true := by
      intro hlisted
      simp [isDropped, hlisted]
    rw [mem_listedFields_concat, Declared, Lost, picks_concat, picks_concat, ← Declared, ← Lost]
    -- What is left is about the last parameter and what is known of those before it.
    tauto

/-! ## Operations -/

/-- The fields of its options that the steps of a request read. -/
def optionFields (operation : Operation) : List String :=
  operation.urlParams ++ operation.headers ++ operation.cookies

/-- An operation lists what its shape lists, and names a declaration of its parameters unless the
    shape has no properties. -/
theorem optionFields_of_extract {fuel : Nat} {registry after : Registry} {taken : List String}
    {path : String} {method : HttpMethod} {raw : RawOperation} {shared : List (MaybeRef Parameter)}
    {operation : Operation}
    (h : extract document fuel registry taken path method raw shared = some (operation, after)) :
    operation.optionFields = (ParamsShape.ofParameters document shared raw.parameters).listed ∧
      (operation.params = none ↔
        (ParamsShape.ofParameters document shared raw.parameters).properties = []) := by
  obtain ⟨params, first, payload, second, responses, hparams, -, -, rfl⟩ := extract_cases h
  refine ⟨rfl, ?_⟩
  obtain ⟨rfl, -⟩ := registerParams_eq hparams
  rw [Option.map_eq_none_iff, paramsRequest?]
  simp

/-- The shape of the parameters against the lists of their fields.  Required names are properties,
    and properties are listed.  Every field is listed once and is a property just when no two
    parameters clash; a listed field is no property just when it is lost.  So an operation goes
    without a declaration of its parameters just when every field that its requests read is lost,
    which is so when there are none. -/
theorem shape_agrees_iff (hdocument : document.Distinct) {shared : List (MaybeRef Parameter)}
    {raw : RawOperation} (hinline : DistinctInline (shared ++ raw.parameters)) :
    let shape := ParamsShape.ofParameters document shared raw.parameters
    let parameters := mergedParameters document shared raw.parameters
    (∀ name ∈ shape.required, name ∈ Keyed.keys shape.properties) ∧
    (∀ field ∈ Keyed.keys shape.properties, field ∈ shape.listed) ∧
    (shape.listed.Nodup ∧ (∀ field ∈ shape.listed, field ∈ Keyed.keys shape.properties) ↔
      parameters.Pairwise fun first second => ¬ Clash document first second) ∧
    (∀ field, field ∈ shape.listed ∧ field ∉ Keyed.keys shape.properties ↔
      Lost document parameters field) ∧
    ∀ fuel registry taken path method operation after,
      extract document fuel registry taken path method raw shared = some (operation, after) →
        operation.optionFields = shape.listed ∧
          (operation.params = none ↔
            ∀ field ∈ operation.optionFields, Lost document parameters field) := by
  intro shape parameters
  have hshapes : Shapes document parameters shape := shapes_ofParameters document shared _
  have hlisted : ∀ field, field ∈ shape.listed ↔ field ∈ listedFields document parameters :=
    fun _ => hshapes.listed_perm.mem_iff
  have hproperties : ∀ field ∈ Keyed.keys shape.properties, field ∈ shape.listed := by
    intro field hfield
    exact (hlisted field).mpr ((hshapes.keys field).mp hfield).mem_listedFields
  have hlost : ∀ field, field ∈ shape.listed ∧ field ∉ Keyed.keys shape.properties ↔
      Lost document parameters field := by
    intro field
    rw [hlisted, hshapes.keys, lost_iff]
  refine ⟨hshapes.required, hproperties, ?_, hlost, ?_⟩
  · have honce := listed_once_iff fun parameter hparameter =>
      nodup_fieldNames hdocument fun schema hschema =>
        distinct_of_mem_mergedParameters hdocument hinline hparameter hschema
    rw [← honce, hshapes.listed_perm.nodup_iff]
    simp only [hlisted, hshapes.keys]
    rfl
  · intro fuel registry taken path method operation after hextract
    obtain ⟨hfields, hparams⟩ := optionFields_of_extract hextract
    refine ⟨hfields, hparams.trans ?_⟩
    rw [hfields]
    constructor
    · intro hempty field hfield
      have hempty : shape.properties = [] := hempty
      exact (hlost field).mp ⟨hfield, by simp [hempty, Keyed.keys]⟩
    · intro hall
      by_contra hne
      obtain ⟨⟨field, node⟩, rest, heq⟩ := List.exists_cons_of_ne_nil hne
      have hfield : field ∈ Keyed.keys shape.properties := by
        have heq : shape.properties = (field, node) :: rest := heq
        simp [heq, Keyed.keys]
      exact ((hlost field).mpr (hall field (hproperties field hfield))).2 hfield

/-- An operation with one parameter in the query, and one of its name in an unknown location. -/
def twoLocations : RawOperation where
  parameters := [.item { name := "x", location := "query" },
    .item { name := "x", location := "matrix" }]

/-- The query parameter is listed and has no property. -/
theorem twoLocations_loses_field :
    (ParamsShape.ofParameters (.obj []) [] twoLocations.parameters).listed = ["x"] ∧
      Lost (.obj []) (mergedParameters (.obj []) [] twoLocations.parameters) "x" ∧
      ∃ operation after, extract (.obj []) 8 .empty [] "/a" .get twoLocations [] =
        some (operation, after) ∧ operation.optionFields = ["x"] ∧ operation.params = none := by
  have hinline : DistinctInline ([] ++ twoLocations.parameters) := by
    intro parameter hparameter schema hschema
    have hplain : parameter.schema = none := by
      simp only [twoLocations, List.nil_append, List.mem_cons, MaybeRef.item.injEq,
        List.not_mem_nil, or_false] at hparameter
      rcases hparameter with rfl | rfl <;> rfl
    rw [hplain] at hschema
    cases hschema
  have hdocument : (Json.obj []).Distinct := by simp [Json.Distinct, Json.DistinctFields, Keyed.keys]
  have hlisted : (ParamsShape.ofParameters (.obj []) [] twoLocations.parameters).listed = ["x"] := by
    decide +kernel
  have hkeys : Keyed.keys (ParamsShape.ofParameters (.obj []) [] twoLocations.parameters).properties
      = [] := by
    decide +kernel
  obtain ⟨-, -, -, hlost, hextract⟩ := shape_agrees_iff hdocument hinline
  have hx : Lost (.obj []) (mergedParameters (.obj []) [] twoLocations.parameters) "x" :=
    (hlost "x").mp ⟨by simp [hlisted], by simp [hkeys]⟩
  have hsome : (extract (.obj []) 8 .empty [] "/a" .get twoLocations []).isSome = true := by
    decide +kernel
  obtain ⟨⟨operation, after⟩, h⟩ := Option.isSome_iff_exists.mp hsome
  obtain ⟨hfields, hparams⟩ := hextract 8 .empty [] "/a" .get operation after h
  refine ⟨hlisted, hx, operation, after, h, hfields.trans hlisted, hparams.mpr ?_⟩
  intro field hfield
  rw [hfields, hlisted] at hfield
  rw [List.mem_singleton.mp hfield]
  exact hx

end Operation
end TypedClient
