/-
  TypedClient.Proofs.Swagger.Nullable

  What becomes of the mark `x-nullable`.  The upgrade turns it into `nullable` in the object that
  has it.  In a schema that is what it means.  In a parameter or a header it stays outside of the
  schema that the keywords move into, since it is not one of them; and of a form field nothing but
  the keywords is left, so that it is lost.
-/
import TypedClient.Proofs.Swagger.Places

namespace TypedClient
namespace Swagger

open Reference (Step LeadsTo)

/-! ## Marks -/

/-- The value admits null, in the syntax of the outcome. -/
def IsNullable (value : Json) : Prop := value.get? "nullable" = some (.bool true)

/-- The value is marked to admit null: by `x-nullable`, or else in the syntax of the outcome. -/
def MarkedNullable (value : Json) : Prop :=
  value.get? "x-nullable" = some (.bool true) ∨
    (∀ flag, value.get? "x-nullable" ≠ some (.bool flag)) ∧ IsNullable value

section

variable {fields converted : Keyed Json} {value : Json}

theorem upgrade_eq_bool_iff {flag : Bool} : upgrade value = .bool flag ↔ value = .bool flag := by
  cases value <;> simp [upgrade]

/-- The upgrade turns the one mark into the other. -/
theorem isNullable_upgrade_iff : IsNullable (upgrade value) ↔ MarkedNullable value := by
  cases value with
  | obj fields =>
    -- Renaming references and files changes neither mark: only the renaming between them counts.
    have hnew : Keyed.get? "nullable" (renameFields (upgradeFields fields)) =
        Keyed.get? "nullable" (renameNullable (renameRef (Keyed.mapValues upgrade fields))) := by
      rw [renameFields, upgradeFields_eq, get?_renameFile_of_ne _ (by decide) (by decide)]
    have hget : ∀ key flag, key ≠ "$ref" →
        (Keyed.get? key (renameRef (Keyed.mapValues upgrade fields)) = some (.bool flag) ↔
          Keyed.get? key fields = some (.bool flag)) := by
      intro key flag hkey
      simp only [get?_renameRef_of_ne _ hkey, Keyed.get?_mapValues, Option.map_eq_some_iff,
        upgrade_eq_bool_iff, exists_eq_right]
    show Keyed.get? "nullable" (renameFields (upgradeFields fields)) = _ ↔
      Keyed.get? "x-nullable" fields = _ ∨ (∀ flag, Keyed.get? "x-nullable" fields ≠ _) ∧
        Keyed.get? "nullable" fields = _
    rw [hnew, renameNullable]
    split
    · next flag hflag =>
      rw [hget _ _ (by decide)] at hflag
      rw [Keyed.get?_insert_self, hflag]
      simp
    · next hnone =>
      have hold : ∀ flag, Keyed.get? "x-nullable" fields ≠ some (.bool flag) :=
        fun flag hflag => hnone flag ((hget _ _ (by decide)).mpr hflag)
      rw [hget _ _ (by decide)]
      exact ⟨fun h => Or.inr ⟨hold, h⟩, fun h => h.elim (absurd · (hold true)) And.right⟩
  | _ => simp [upgrade, IsNullable, MarkedNullable, Json.get?]

/-- The keywords that can mark a schema. -/
def nullableMarks : List String := ["x-nullable", "nullable"]

theorem not_markedNullable (h : ∀ key ∈ nullableMarks, Keyed.get? key fields = none) :
    ¬ MarkedNullable (.obj fields) := by
  have hold : (Json.obj fields).get? "x-nullable" = none := h "x-nullable" (by decide)
  have hnew : (Json.obj fields).get? "nullable" = none := h "nullable" (by decide)
  simp [MarkedNullable, IsNullable, hold, hnew]

/-- The marks are none of the keywords that are moved: a schema made up of these has no mark. -/
theorem not_markedNullable_takeSchema (h : (Keyed.keys fields).Nodup) :
    ¬ MarkedNullable (.obj (takeSchema fields).1) := by
  refine not_markedNullable fun key hkey => ?_
  have hmarks : ∀ key ∈ nullableMarks, key ∉ schemaKeywords := by decide
  rw [(takes_takeSchema h).schema, if_neg (hmarks key hkey)]

/-- Once converted and upgraded, a marked parameter or header is itself marked. -/
theorem Nests.isNullable_iff (h : Nests fields converted) :
    IsNullable (upgrade (.obj converted)) ↔ MarkedNullable (.obj fields) := by
  have hold : Keyed.get? "x-nullable" converted = Keyed.get? "x-nullable" fields :=
    h.other _ (by decide) (by decide)
  have hnew : Keyed.get? "nullable" converted = Keyed.get? "nullable" fields :=
    h.other _ (by decide) (by decide)
  rw [isNullable_upgrade_iff]
  simp only [MarkedNullable, IsNullable, Json.get?, hold, hnew]

/-- Its schema is not, unless it was there already, with no keyword to take its place. -/
theorem Nests.isNullable_schema_iff (h : Nests fields converted)
    (hnodup : (Keyed.keys fields).Nodup) :
    (∃ schema, (upgrade (.obj converted)).get? "schema" = some schema ∧ IsNullable schema) ↔
      Bare fields ∧ ∃ own, Keyed.get? "schema" fields = some own ∧ MarkedNullable own := by
  have hschema : (upgrade (.obj converted)).get? "schema" =
      (Keyed.get? "schema" converted).map upgrade := get?_upgrade h.nodup (by decide)
  simp only [hschema, Option.map_eq_some_iff]
  by_cases hbare : Bare fields
  · rw [h.bare hbare]
    constructor
    · rintro ⟨_, ⟨own, hown, rfl⟩, hnullable⟩
      exact ⟨hbare, own, hown, isNullable_upgrade_iff.mp hnullable⟩
    · rintro ⟨-, own, hown, hmarked⟩
      exact ⟨_, ⟨own, hown, rfl⟩, isNullable_upgrade_iff.mpr hmarked⟩
  · refine iff_of_false ?_ fun hright => hbare hright.1
    rintro ⟨_, ⟨own, hown, rfl⟩, hnullable⟩
    rw [h.schema hbare] at hown
    cases hown
    exact not_markedNullable_takeSchema hnodup (isNullable_upgrade_iff.mp hnullable)

end

/-! ## Documents -/

/-- What conversion makes of the marks of a document.  A parameter or a header that is written in
    place keeps its mark, and the schema that its keywords move into has none: it is nullable just
    when there are no keywords and the schema was there and marked.  The schema of a form field is
    never nullable.  Every other schema, at any depth, is nullable just when it was marked. -/
theorem convert_nullable_iff {root : Keyed Json} {output : Json}
    (hdistinct : (Json.obj root).Distinct) (hconvert : convert (.obj root) = .ok output) :
    (∀ place holder, HolderAt root place holder →
      ∃ converted, LeadsTo output place converted ∧
        (IsNullable converted ↔ MarkedNullable (.obj holder)) ∧
        ((∃ schema, converted.get? "schema" = some schema ∧ IsNullable schema) ↔
          Bare holder ∧ ∃ own, Keyed.get? "schema" holder = some own ∧ MarkedNullable own)) ∧
    (∀ place holder, FieldAt root place holder →
      ∃ converted, LeadsTo output place converted ∧ ¬ IsNullable converted) ∧
    ∀ place value path schema, SchemaAt root place value → Reaches value path (.obj schema) →
      ∃ converted, LeadsTo output (place ++ path) converted ∧
        (IsNullable converted ↔ MarkedNullable (.obj schema)) := by
  have hroot := hdistinct.nodup
  obtain ⟨paths, hpaths, rfl⟩ := (convert_obj_eq_ok_iff hroot).mp hconvert
  have houtcome := distinct_outcomeOf hdistinct (distinct_convertedPaths hdistinct hpaths)
  have hobject : ∀ fields : Keyed Json, ¬ IsPlain (.obj fields) := by simp [IsPlain]
  refine ⟨fun place holder hholder => ?_, fun place holder hfield => ?_,
    fun place value path schema hschema hreaches => ?_⟩
  · obtain ⟨converted, hnests, hreaches⟩ := hholder.reaches hdistinct hpaths
    have hnodup := (hholder.distinct hdistinct).nodup
    exact ⟨_, hreaches.upgrade houtcome (hobject converted), hnests.isNullable_iff,
      hnests.isNullable_schema_iff hnodup⟩
  · obtain ⟨schema, hget, hreaches⟩ := hfield.reaches hdistinct hpaths
    refine ⟨_, hreaches.upgrade houtcome (hobject schema), fun hnullable => ?_⟩
    refine not_markedNullable (fun key hkey => ?_) (isNullable_upgrade_iff.mp hnullable)
    have hmarks : ∀ key ∈ nullableMarks, key ≠ "description" ∧ key ∉ schemaKeywords := by decide
    rw [hget key (hmarks key hkey).1, if_neg (hmarks key hkey).2]
  · have hplace := (hschema.reaches hdistinct hpaths).trans hreaches
    exact ⟨_, hplace.upgrade houtcome (hobject schema), isNullable_upgrade_iff⟩

/-- A parameter that is marked. -/
def markedLimit : Keyed Json :=
  [("name", .str "limit"), ("in", .str "query"), ("type", .str "integer"),
    ("x-nullable", .bool true)]

/-- A form field that is marked. -/
def markedNote : Keyed Json :=
  [("name", .str "note"), ("in", .str "formData"), ("type", .str "string"),
    ("x-nullable", .bool true)]

/-- A header that is marked. -/
def markedRate : Keyed Json := [("type", .str "integer"), ("x-nullable", .bool true)]

/-- A schema that is marked. -/
def markedPet : Keyed Json := [("type", .str "object"), ("x-nullable", .bool true)]

/-- An operation with the first three. -/
def markedFields : Keyed Json := [
  ("parameters", .arr [.obj markedLimit, .obj markedNote]),
  ("responses", .obj [("200", .obj [("headers", .obj [("X-Rate", .obj markedRate)])])])]

/-- The document of this operation and this schema. -/
def markedPets : Keyed Json := [
  ("swagger", .str "2.0"),
  ("paths", .obj [("/pets", .obj [("post", .obj markedFields)])]),
  ("definitions", .obj [("Pet", .obj markedPet)])]

/-- Of the four marks the one of the definition comes to be a mark of a schema. -/
theorem markedPets_nullable :
    ∃ output, convert (.obj markedPets) = .ok output ∧
      (∃ converted, LeadsTo output
          [.key "paths", .key "/pets", .key "post", .key "parameters", .position 0] converted ∧
        IsNullable converted ∧
        ¬ ∃ schema, converted.get? "schema" = some schema ∧ IsNullable schema) ∧
      (∃ converted, LeadsTo output
          [.key "paths", .key "/pets", .key "post", .key "responses", .key "200",
            .key "headers", .key "X-Rate"] converted ∧
        IsNullable converted ∧
        ¬ ∃ schema, converted.get? "schema" = some schema ∧ IsNullable schema) ∧
      (∃ converted, LeadsTo output
          [.key "paths", .key "/pets", .key "post", .key "requestBody", .key "content",
            .key "multipart/form-data", .key "schema", .key "properties", .key "note"]
          converted ∧
        ¬ IsNullable converted) ∧
      ∃ converted, LeadsTo output [.key "components", .key "schemas", .key "Pet"] converted ∧
        IsNullable converted := by
  have hdistinct : (Json.obj markedPets).Distinct := by
    simp [markedPets, markedFields, markedLimit, markedNote, markedRate, markedPet,
      Json.distinct_obj_iff, Json.distinct_arr_iff, Keyed.keys, Json.distinct_str,
      Json.distinct_bool]
  obtain ⟨output, houtput⟩ : ∃ output, convert (.obj markedPets) = .ok output := ⟨_, rfl⟩
  have hmerge : (Context.of markedPets).merge [] [.obj markedLimit, .obj markedNote] =
      .ok [(.obj markedLimit, none), (.obj markedNote, none)] := rfl
  have hoperation : OperationAt markedPets "/pets" "post" markedFields
      [(.obj markedLimit, none), (.obj markedNote, none)] :=
    ⟨by decide, [("post", .obj markedFields)], rfl, rfl, merge_eq_ok_iff.mp hmerge⟩
  have hmarked : ∀ fields, Keyed.get? "x-nullable" fields = some (.bool true) →
      MarkedNullable (.obj fields) := fun _ hfields => Or.inl hfields
  have htyped : ∀ fields text, Keyed.get? "type" fields = some (.str text) → ¬ Bare fields :=
    fun fields text htype hbare => by
      rw [hbare "type" (by decide)] at htype
      cases htype
  have hlimit : HolderAt markedPets
      [.key "paths", .key "/pets", .key "post", .key "parameters", .position 0] markedLimit :=
    .parameter hoperation rfl
  have hresponse : ResponseAt markedPets
      [.key "paths", .key "/pets", .key "post", .key "responses", .key "200"] _
      [("headers", .obj [("X-Rate", .obj markedRate)])] :=
    .operation hoperation rfl rfl (not_overwrites (by decide))
  have hrate : HolderAt markedPets
      ([.key "paths", .key "/pets", .key "post", .key "responses", .key "200"] ++
        [.key "headers", .key "X-Rate"]) markedRate :=
    .header hresponse rfl rfl rfl (not_overwrites (by decide))
  have hnote : FieldAt markedPets
      [.key "paths", .key "/pets", .key "post", .key "requestBody", .key "content",
        .key "multipart/form-data", .key "schema", .key "properties", .key "note"] markedNote :=
    .field hoperation (by decide) (List.mem_singleton.mpr rfl) rfl
  have hpet : Reaches (.obj [("Pet", .obj markedPet)]) [.key "Pet"] (.obj markedPet) :=
    .field rfl (by decide)
  obtain ⟨hholders, hfields, hschemas⟩ := convert_nullable_iff hdistinct houtput
  obtain ⟨limit, hlimit, hlimitMark, hlimitSchema⟩ := hholders _ _ hlimit
  obtain ⟨rate, hrate, hrateMark, hrateSchema⟩ := hholders _ _ hrate
  obtain ⟨note, hnote, hnoteMark⟩ := hfields _ _ hnote
  obtain ⟨pet, hpet, hpetMark⟩ := hschemas _ _ _ _ (.definitions rfl) hpet
  exact ⟨output, houtput,
    ⟨limit, hlimit, hlimitMark.mpr (hmarked _ rfl),
      fun h => htyped markedLimit _ rfl (hlimitSchema.mp h).1⟩,
    ⟨rate, hrate, hrateMark.mpr (hmarked _ rfl),
      fun h => htyped markedRate _ rfl (hrateSchema.mp h).1⟩,
    ⟨note, hnote, hnoteMark⟩, pet, hpet, hpetMark.mpr (hmarked _ rfl)⟩

end Swagger
end TypedClient
