/-
  TypedClient.Proofs.Swagger.InstanceData

  What conversion does to the data in the definitions of a document: to defaults, examples and the
  values of enumerations.  The upgrade walks through them as it does through schemas, so that data
  stays as it is just when there is nothing to rename in it.  What an object is renamed to can also
  take the place of another value of the object, and then nothing inside of that one is left.
-/
import TypedClient.Proofs.Reference.Writing
import TypedClient.Proofs.Swagger.Upgraded

namespace TypedClient
namespace Swagger

open Reference (Step LeadsTo)

/-! ## Values that are overwritten -/

/-- Renaming puts another value under the key: that of `x-nullable`, or the format of files. -/
def Overwrites (fields : Keyed Json) (key : String) : Prop :=
  (key = "nullable" ∧ ∃ flag, Keyed.get? "x-nullable" fields = some (.bool flag)) ∨
    (key = "format" ∧ Keyed.get? "type" fields = some (.str "file"))

section

variable {fields : Keyed Json} {key : String} {value : Json}

theorem get?_renameRef_of_not_plain (hvalue : ¬ IsPlain value)
    (h : Keyed.get? key fields = some value) :
    Keyed.get? key (renameRef fields) = some value := by
  by_cases hkey : key = "$ref"
  · subst hkey
    unfold renameRef
    split
    · next htext =>
      rw [h] at htext
      cases htext
      exact absurd (Or.inl ⟨_, rfl⟩) hvalue
    · exact h
  · rw [get?_renameRef_of_ne fields hkey, h]

theorem get?_renameNullable_of_not_plain (hnodup : (Keyed.keys fields).Nodup)
    (hvalue : ¬ IsPlain value) (h : Keyed.get? key fields = some value)
    (hkept : key = "nullable" → ∀ flag, Keyed.get? "x-nullable" fields ≠ some (.bool flag)) :
    Keyed.get? key (renameNullable fields) = some value := by
  unfold renameNullable
  split
  · next flag hflag =>
    have hold : key ≠ "x-nullable" := by
      rintro rfl
      rw [h] at hflag
      cases hflag
      exact hvalue (Or.inr ⟨flag, rfl⟩)
    have hnew : key ≠ "nullable" := fun heq => hkept heq flag hflag
    rw [Keyed.get?_insert_of_ne _ _ hnew, Keyed.get?_swapErase_of_ne hnodup hold, h]
  · exact h

theorem get?_renameFile_of_not_plain (hvalue : ¬ IsPlain value)
    (h : Keyed.get? key fields = some value)
    (hkept : key = "format" → Keyed.get? "type" fields ≠ some (.str "file")) :
    Keyed.get? key (renameFile fields) = some value := by
  unfold renameFile
  split
  · next hfile =>
    have htype : key ≠ "type" := by
      rintro rfl
      rw [h] at hfile
      cases hfile
      exact hvalue (Or.inl ⟨_, rfl⟩)
    have hformat : key ≠ "format" := fun heq => hkept heq hfile
    rw [Keyed.get?_insert_of_ne _ _ hformat, Keyed.get?_insert_of_ne _ _ htype, h]
  · exact h

/-- What is overwritten gives way to a text or a truth value. -/
theorem Overwrites.isPlain (h : Overwrites fields key) (hnodup : (Keyed.keys fields).Nodup)
    (hvalue : Keyed.get? key (renameFields fields) = some value) : IsPlain value := by
  rcases h with ⟨rfl, flag, hflag⟩ | ⟨rfl, hfile⟩
  · rw [renameFields, get?_renameFile_of_ne _ (by decide) (by decide)] at hvalue
    rw [← get?_renameRef_of_ne fields (by decide)] at hflag
    simp only [renameNullable, hflag, Keyed.get?_insert_self] at hvalue
    cases hvalue
    exact Or.inr ⟨flag, rfl⟩
  · rw [← get?_renameRef_of_ne fields (by decide), ← get?_renameNullable_of_ne
      (nodup_keys_renameRef hnodup) (by decide) (by decide)] at hfile
    simp only [renameFields, renameFile, hfile, Keyed.get?_insert_self] at hvalue
    cases hvalue
    exact Or.inl ⟨_, rfl⟩

/-- Other values than texts and truth values stay under their keys unless they are overwritten. -/
theorem get?_renameFields_iff (hnodup : (Keyed.keys fields).Nodup) (hvalue : ¬ IsPlain value) :
    Keyed.get? key (renameFields fields) = some value ↔
      Keyed.get? key fields = some value ∧ ¬ Overwrites fields key := by
  constructor
  · intro h
    refine ⟨?_, fun hover => hvalue (hover.isPlain hnodup h)⟩
    rcases mem_renameFields hnodup (Keyed.mem_of_get? h) with hmem | hplain
    · exact Keyed.get?_of_mem hnodup hmem
    · exact absurd hplain hvalue
  · rintro ⟨h, hkept⟩
    have href : Keyed.get? key (renameRef fields) = some value :=
      get?_renameRef_of_not_plain hvalue h
    have hnullable : Keyed.get? key (renameNullable (renameRef fields)) = some value := by
      refine get?_renameNullable_of_not_plain (nodup_keys_renameRef hnodup) hvalue href ?_
      intro heq flag hflag
      rw [get?_renameRef_of_ne fields (by decide)] at hflag
      exact hkept (Or.inl ⟨heq, flag, hflag⟩)
    -- The earlier renamings change neither of the keys that make a later one overwrite.
    refine get?_renameFile_of_not_plain hvalue hnullable fun heq hfile => hkept (Or.inr ⟨heq, ?_⟩)
    rw [get?_renameNullable_of_ne (nodup_keys_renameRef hnodup) (by decide) (by decide),
      get?_renameRef_of_ne fields (by decide)] at hfile
    exact hfile

end

/-! ## Paths in an upgraded value -/

/-- Some step of the path leads to a value that is overwritten. -/
inductive Overwritten : Json → List Step → Prop
  | here {fields : Keyed Json} {name : String} {path : List Step}
      (overwrites : Overwrites fields name) : Overwritten (.obj fields) (.key name :: path)
  | key {fields : Keyed Json} {name : String} {inner : Json} {path : List Step}
      (found : Keyed.get? name fields = some inner) (rest : Overwritten inner path) :
      Overwritten (.obj fields) (.key name :: path)
  | position {items : List Json} {index : Nat} {inner : Json} {path : List Step}
      (found : items[index]? = some inner) (rest : Overwritten inner path) :
      Overwritten (.arr items) (.position index :: path)

section

variable {fields : Keyed Json} {key : String} {value target : Json} {path : List Step}

/-- The upgrade turns nothing else into a text or a truth value, and leaves these alone. -/
theorem isPlain_upgrade_iff : IsPlain (upgrade value) ↔ IsPlain value := by
  cases value <;> simp [IsPlain, upgrade]

theorem upgrade_of_isPlain (h : IsPlain value ∨ IsPlain (upgrade value)) :
    upgrade value = value := by
  rw [isPlain_upgrade_iff, or_self] at h
  rcases h with ⟨text, rfl⟩ | ⟨flag, rfl⟩
  · rfl
  · rfl

/-- A change that neither makes nor unmakes texts and truth values overwrites what was overwritten
    before. -/
theorem overwrites_mapValues_iff {f : Json → Json}
    (hf : ∀ value, IsPlain value ∨ IsPlain (f value) → f value = value) :
    Overwrites (Keyed.mapValues f fields) key ↔ Overwrites fields key := by
  have hget : ∀ {key value}, IsPlain value →
      (Keyed.get? key (Keyed.mapValues f fields) = some value ↔
        Keyed.get? key fields = some value) := by
    intro key value hplain
    rw [Keyed.get?_mapValues, Option.map_eq_some_iff]
    constructor
    · rintro ⟨old, hold, rfl⟩
      rw [hold, hf old (Or.inr hplain)]
    · exact fun hvalue => ⟨value, hvalue, hf value (Or.inl hplain)⟩
  have hflag : ∀ flag, IsPlain (.bool flag) := fun flag => Or.inr ⟨flag, rfl⟩
  have hfile : IsPlain (.str "file") := Or.inl ⟨_, rfl⟩
  simp only [Overwrites, hget (hflag _), hget hfile]

/-- Under a key of an upgraded object stands the upgraded value unless it is overwritten. -/
theorem get?_upgradeFields_iff (hnodup : (Keyed.keys fields).Nodup) (hvalue : ¬ IsPlain value) :
    Keyed.get? key (renameFields (upgradeFields fields)) = some value ↔
      (∃ old, Keyed.get? key fields = some old ∧ upgrade old = value) ∧
        ¬ Overwrites fields key := by
  rw [get?_renameFields_iff (nodup_keys_upgradeFields hnodup) hvalue, upgradeFields_eq,
    overwrites_mapValues_iff fun _ => upgrade_of_isPlain, Keyed.get?_mapValues,
    Option.map_eq_some_iff]

/-- A path that goes on leads from an object or an array. -/
theorem not_isPlain_of_leadsTo (h : LeadsTo value path target) (htarget : ¬ IsPlain target) :
    ¬ IsPlain value := by
  rintro (⟨text, rfl⟩ | ⟨flag, rfl⟩)
  · cases h
    exact htarget (Or.inl ⟨text, rfl⟩)
  · cases h
    exact htarget (Or.inr ⟨flag, rfl⟩)

theorem distinct_of_leadsTo (h : LeadsTo value path target) (hvalue : value.Distinct) :
    target.Distinct := by
  induction h with
  | here _ => exact hvalue
  | key found _ ih => exact ih (hvalue.of_get? found)
  | position found _ ih =>
    exact ih (Json.distinct_arr_iff.mp hvalue _ (List.mem_of_getElem? found))

/-- A path leads to one value only. -/
theorem leadsTo_unique {other : Json} (h : LeadsTo value path target)
    (hother : LeadsTo value path other) : target = other :=
  Option.some.inj (h.follow_eq.symm.trans hother.follow_eq)

/-- Where nothing is overwritten on the way, a path leads to the upgrade of what it led to. -/
theorem leadsTo_upgrade (h : LeadsTo value path target) (hvalue : value.Distinct)
    (htarget : ¬ IsPlain target) (hkept : ¬ Overwritten value path) :
    LeadsTo (upgrade value) path (upgrade target) := by
  induction h with
  | here value => exact .here _
  | @key fields name inner target path found rest ih =>
    have hrest : LeadsTo (upgrade inner) path (upgrade target) :=
      ih (hvalue.of_get? found) htarget fun h => hkept (.key found h)
    -- A path to more than a text or a truth value goes through more than these only.
    have hinner : ¬ IsPlain (upgrade inner) :=
      not_isPlain_of_leadsTo hrest (isPlain_upgrade_iff.not.mpr htarget)
    have hnodup := (Json.distinct_obj_iff.mp hvalue).1
    rw [upgrade]
    refine .key ((get?_upgradeFields_iff hnodup hinner).mpr ⟨⟨inner, found, rfl⟩, ?_⟩) hrest
    exact fun h => hkept (.here h)
  | @position items index inner target path found rest ih =>
    have hinner := Json.distinct_arr_iff.mp hvalue inner (List.mem_of_getElem? found)
    have hrest : LeadsTo (upgrade inner) path (upgrade target) :=
      ih hinner htarget fun h => hkept (.position found h)
    rw [upgrade, upgradeItems_eq]
    exact .position (by rw [List.getElem?_map, found, Option.map_some]) hrest

/-- A path that leads to more than a text or a truth value in an upgraded value led somewhere
    before, and nothing is overwritten on the way. -/
theorem exists_leadsTo_of_upgrade (h : LeadsTo (upgrade value) path target)
    (hvalue : value.Distinct) (htarget : ¬ IsPlain target) :
    (∃ old, LeadsTo value path old ∧ upgrade old = target) ∧ ¬ Overwritten value path := by
  -- On the path, not on how it leads: that is known for the upgraded value only.
  induction path generalizing value with
  | nil => exact ⟨⟨value, .here value, Option.some.inj h.follow_eq⟩, fun hover => by cases hover⟩
  | cons step path ih =>
    cases value with
    | obj fields =>
      rw [upgrade] at h
      cases h with
      | key found rest =>
        have hnodup := (Json.distinct_obj_iff.mp hvalue).1
        obtain ⟨⟨inner, hinner, rfl⟩, hkept⟩ :=
          (get?_upgradeFields_iff hnodup (not_isPlain_of_leadsTo rest htarget)).mp found
        obtain ⟨⟨old, hold, heq⟩, hrest⟩ := ih rest (hvalue.of_get? hinner)
        refine ⟨⟨old, .key hinner hold, heq⟩, fun hover => ?_⟩
        cases hover with
        | here overwrites => exact hkept overwrites
        | key found rest =>
          cases hinner.symm.trans found
          exact hrest rest
    | arr items =>
      rw [upgrade, upgradeItems_eq] at h
      cases h with
      | position found rest =>
        rw [List.getElem?_map] at found
        obtain ⟨inner, hinner, rfl⟩ := Option.map_eq_some_iff.mp found
        have hdistinct := Json.distinct_arr_iff.mp hvalue inner (List.mem_of_getElem? hinner)
        obtain ⟨⟨old, hold, heq⟩, hrest⟩ := ih rest hdistinct
        refine ⟨⟨old, .position hinner hold, heq⟩, fun hover => ?_⟩
        cases hover with
        | position found rest =>
          cases hinner.symm.trans found
          exact hrest rest
    | _ => cases h

end

/-! ## Definitions -/

/-- The keywords of a schema whose values are data. -/
def dataKeywords : List String := ["default", "example", "enum"]

/-- The definitions are found among the components of the outcome, upgraded. -/
theorem leadsTo_definitions_iff {root paths : Keyed Json} {definitions target : Json}
    {path : List Step} (hroot : (Keyed.keys root).Nodup)
    (hdefinitions : Keyed.get? "definitions" root = some definitions) :
    LeadsTo (upgrade (.obj (outcomeOf root paths)))
        (.key "components" :: .key "schemas" :: path) target ↔
      LeadsTo (upgrade definitions) path target := by
  have hsection : Keyed.get? "schemas" (componentsOf root) = some definitions :=
    (get?_componentsOf root .definitions).trans hdefinitions
  have hne : componentsOf root ≠ [] := by
    intro hempty
    rw [hempty] at hsection
    cases hsection
  have hcomponents := get?_components_outcomeOf hroot hne paths
  have hschemas : Keyed.get? "schemas" (renameFields (upgradeFields (componentsOf root))) =
      some (upgrade definitions) := by
    rw [get?_upgrade (nodup_keys_componentsOf root) (by decide), hsection]
    rfl
  rw [upgrade] at hcomponents
  rw [upgrade]
  constructor
  · intro h
    cases h with
    | key found rest =>
      cases hcomponents.symm.trans found
      cases rest with
      | key found rest =>
        cases hschemas.symm.trans found
        exact rest
  · exact fun h => .key hcomponents (.key hschemas h)

/-- Conversion keeps the data of a schema just when there is nothing to rename in it.  Take any
    object in the definitions of a document, as any schema there is.  In the outcome it is found
    where its definition is moved to, unless it lies in a value that is overwritten.  Each of its
    default, example and enumeration is the old one upgraded: the same if and only if no object in
    it, at any depth, looks like 2.0 syntax. -/
theorem convert_data_iff {root schema : Keyed Json} {output definitions : Json} {path : List Step}
    (hdistinct : (Json.obj root).Distinct) (hconvert : convert (.obj root) = .ok output)
    (hdefinitions : Keyed.get? "definitions" root = some definitions)
    (hschema : LeadsTo definitions path (.obj schema)) :
    ((∃ converted, LeadsTo output (.key "components" :: .key "schemas" :: path)
        (.obj converted)) ↔ ¬ Overwritten definitions path) ∧
      ∀ converted, LeadsTo output (.key "components" :: .key "schemas" :: path)
          (.obj converted) → ∀ key ∈ dataKeywords,
        Keyed.get? key converted = (Keyed.get? key schema).map upgrade ∧
        (Keyed.get? key converted = Keyed.get? key schema ↔
          ∀ value, Keyed.get? key schema = some value → Upgraded value) := by
  have hroot : (Keyed.keys root).Nodup := (Json.distinct_obj_iff.mp hdistinct).1
  have hvalue : definitions.Distinct := hdistinct.of_get? hdefinitions
  have hobject : ∀ fields : Keyed Json, ¬ IsPlain (.obj fields) := by simp [IsPlain]
  obtain ⟨paths, rfl⟩ := convert_eq_ok hroot hconvert
  simp only [leadsTo_definitions_iff hroot hdefinitions]
  refine ⟨⟨?_, fun hkept => ?_⟩, fun converted hconverted key hkey => ?_⟩
  · rintro ⟨converted, hconverted⟩
    exact (exists_leadsTo_of_upgrade hconverted hvalue (hobject converted)).2
  · exact ⟨_, leadsTo_upgrade hschema hvalue (hobject schema) hkept⟩
  · obtain ⟨⟨old, hold, hupgrade⟩, -⟩ :=
      exists_leadsTo_of_upgrade hconverted hvalue (hobject converted)
    -- What the path led to before is the schema, and nothing else.
    rw [← leadsTo_unique hschema hold, upgrade, Json.obj.injEq] at hupgrade
    have hdata := Json.distinct_obj_iff.mp (distinct_of_leadsTo hschema hvalue)
    have hplain : ∀ key ∈ dataKeywords, key ∉ renamedKeys := by decide
    have hget : Keyed.get? key converted = (Keyed.get? key schema).map upgrade := by
      rw [← hupgrade, get?_upgrade hdata.1 (hplain key hkey)]
    refine ⟨hget, ?_⟩
    rw [hget]
    cases hfound : Keyed.get? key schema with
    | none => simp
    | some value =>
      have hdistinct : value.Distinct := hdata.2 _ (Keyed.mem_of_get? hfound)
      simp [upgrade_eq_self_iff hdistinct]

/-- A schema whose default looks like the type of files, and whose example does not. -/
def uploadSchema : Keyed Json := [
  ("type", .str "object"),
  ("default", .obj [("type", .str "file"), ("path", .str "/tmp")]),
  ("example", .obj [("type", .str "link"), ("path", .str "/tmp")])]

/-- The document of this schema. -/
def uploads : Keyed Json := [
  ("swagger", .str "2.0"),
  ("paths", .obj []),
  ("definitions", .obj [("Upload", .obj uploadSchema)])]

/-- The default is changed, and the example is kept. -/
theorem uploads_data :
    ∃ output converted, convert (.obj uploads) = .ok output ∧
      LeadsTo output [.key "components", .key "schemas", .key "Upload"] (.obj converted) ∧
      Keyed.get? "default" converted = some (.obj
        [("type", .str "string"), ("path", .str "/tmp"), ("format", .str "binary")]) ∧
      Keyed.get? "default" converted ≠ Keyed.get? "default" uploadSchema ∧
      Keyed.get? "example" converted = Keyed.get? "example" uploadSchema := by
  have hdistinct : (Json.obj uploads).Distinct := by
    simp [uploads, uploadSchema, Json.distinct_obj_iff, Keyed.keys, Json.distinct_str]
  obtain ⟨output, houtput⟩ : ∃ output, convert (.obj uploads) = .ok output := ⟨_, rfl⟩
  have hschema : LeadsTo (.obj [("Upload", .obj uploadSchema)]) [.key "Upload"]
      (.obj uploadSchema) := .key rfl (.here _)
  obtain ⟨hfound, hdata⟩ := convert_data_iff hdistinct houtput rfl hschema
  have hkept : ¬ Overwritten (.obj [("Upload", .obj uploadSchema)]) [.key "Upload"] := by
    intro hover
    cases hover with
    | here overwrites => simp [Overwrites] at overwrites
    | key _ rest => cases rest
  obtain ⟨converted, hconverted⟩ := hfound.mpr hkept
  obtain ⟨hdefault, hsame⟩ := hdata converted hconverted "default" (by decide)
  obtain ⟨-, hexample⟩ := hdata converted hconverted "example" (by decide)
  refine ⟨output, converted, houtput, hconverted, hdefault, fun heq => ?_, ?_⟩
  · exact (upgraded_obj_iff.mp (hsame.mp heq _ rfl)).1.file (List.mem_cons_self ..)
  · refine hexample.mpr fun value hvalue => ?_
    cases hvalue
    have hplain : ∀ field ∈ [("type", Json.str "link"), ("path", .str "/tmp")],
        IsPlain field.2 := by simp [IsPlain]
    exact upgraded_obj_iff.mpr ⟨⟨by simp, by simp, by simp⟩,
      fun field hfield => (hplain field hfield).upgraded⟩

end Swagger
end TypedClient
