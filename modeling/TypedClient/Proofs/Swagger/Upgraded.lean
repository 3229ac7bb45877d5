/-
  TypedClient.Proofs.Swagger.Upgraded

  Nothing of the 2.0 syntax is left in the outcome of a conversion.  The upgrade renames in the
  objects of the outcome, wherever they came from, and it is done in one pass: what it writes is
  never among what it renames.  So it changes nothing in its own outcome, and it changes nothing in
  a value exactly when there is nothing to rename in any of its objects.
-/
import TypedClient.Proofs.Schema.Mentions
import TypedClient.Proofs.Swagger.Distinct

namespace TypedClient

/-! ## The values inside a value -/

namespace Json

theorem mem_partsOfItems_iff {part : Json} {items : List Json} :
    part ∈ partsOfItems items ↔ ∃ item ∈ items, part ∈ item.parts := by
  induction items with
  | nil => simp [partsOfItems]
  | cons item rest ih => simp [partsOfItems, ih]

theorem mem_partsOfFields_iff {part : Json} {fields : Keyed Json} :
    part ∈ partsOfFields fields ↔ ∃ field ∈ fields, part ∈ field.2.parts :=
  ⟨exists_of_mem_partsOfFields, fun ⟨_, hfield, hpart⟩ => parts_subset_partsOfFields hfield hpart⟩

end Json

namespace Swagger

/-! ## What is renamed in an object -/

/-- Nothing of the 2.0 syntax is among the fields: no reference into a section of a document, no
    truth value as `x-nullable`, and not the type of files. -/
structure NothingToRename (fields : Keyed Json) : Prop where
  reference : ∀ reference, ("$ref", .str reference) ∈ fields →
    ∀ kind : Section, ¬ kind.start.toList <+: reference.toList
  nullable : ∀ nullable, ("x-nullable", .bool nullable) ∉ fields
  file : ("type", .str "file") ∉ fields

section

variable {fields : Keyed Json}

/-- A reference outside of the sections stays as it is. -/
theorem renameReference_of_outside {reference : String}
    (h : ∀ kind : Section, ¬ kind.start.toList <+: reference.toList) :
    renameReference reference = reference := by
  have hnone : ∀ kind : Section, afterStart? kind.start reference = none := fun kind =>
    if_neg fun hprefix => h kind (List.isPrefixOf_iff_prefix.mp hprefix)
  have hdefinitions : afterStart? "#/definitions/" reference = none := hnone .definitions
  have hparameters : afterStart? "#/parameters/" reference = none := hnone .parameters
  have hresponses : afterStart? "#/responses/" reference = none := hnone .responses
  simp [renameReference, referencePrefixes, hdefinitions, hparameters, hresponses]

/-- A renamed reference is outside of the sections. -/
theorem renameReference_outside (reference : String) (kind : Section) :
    ¬ kind.start.toList <+: (renameReference reference).toList := by
  by_cases h : ∃ other : Section, other.start.toList <+: reference.toList
  · obtain ⟨other, rest, hrest⟩ := h
    have hreference : reference = other.start ++ String.ofList rest := by
      rw [← String.toList_inj, String.toList_append, String.toList_ofList, hrest]
    rw [hreference, renameReference_start]
    -- The starts differ from the moved ones in the first letter.
    cases kind <;> cases other <;> simp [Section.start, Section.movedStart]
  · have h := not_exists.mp h
    rw [renameReference_of_outside h]
    exact h kind

theorem get?_renameRef_ne {reference : String} {kind : Section}
    (h : kind.start.toList <+: reference.toList) :
    Keyed.get? "$ref" (renameRef fields) ≠ some (.str reference) := by
  unfold renameRef
  split
  · rw [Keyed.get?_insert_self]
    intro heq
    cases heq
    exact renameReference_outside _ kind h
  · next hother => exact hother reference

theorem get?_renameNullable_ne (h : (Keyed.keys fields).Nodup) (flag : Bool) :
    Keyed.get? "x-nullable" (renameNullable fields) ≠ some (.bool flag) := by
  unfold renameNullable
  split
  · rw [Keyed.get?_insert_of_ne _ _ (by decide), Keyed.get?_swapErase_self _ h]
    exact (Option.some_ne_none _).symm
  · next hother => exact hother flag

theorem get?_renameFile_ne : Keyed.get? "type" (renameFile fields) ≠ some (.str "file") := by
  unfold renameFile
  split
  · rw [Keyed.get?_insert_of_ne _ _ (by decide), Keyed.get?_insert_self]
    simp
  · next hother => exact hother

/-- What one of the three renamings writes is none of what the other two rename. -/
theorem nothingToRename_renameFields (h : (Keyed.keys fields).Nodup) :
    NothingToRename (renameFields fields) := by
  have hnodup : (Keyed.keys (renameFields fields)).Nodup := nodup_keys_renameFields h
  refine ⟨fun reference hmem kind hprefix => ?_, fun flag hmem => ?_, fun hmem => ?_⟩
  · have hget := Keyed.get?_of_mem hnodup hmem
    rw [renameFields, get?_renameFile_of_ne _ (by decide) (by decide),
      get?_renameNullable_of_ne (nodup_keys_renameRef h) (by decide) (by decide)] at hget
    exact get?_renameRef_ne hprefix hget
  · have hget := Keyed.get?_of_mem hnodup hmem
    rw [renameFields, get?_renameFile_of_ne _ (by decide) (by decide)] at hget
    exact get?_renameNullable_ne (nodup_keys_renameRef h) flag hget
  · exact get?_renameFile_ne (Keyed.get?_of_mem hnodup hmem)

theorem NothingToRename.renameFields_eq (h : NothingToRename fields) :
    renameFields fields = fields :=
  renameFields_eq_self
    (fun reference hvalue =>
      renameReference_of_outside (h.reference reference (Keyed.mem_of_get? hvalue)))
    (fun flag hvalue => h.nullable flag (Keyed.mem_of_get? hvalue))
    fun hvalue => h.file (Keyed.mem_of_get? hvalue)

end

/-! ## What is renamed in a value -/

/-- There is nothing to rename in the objects of the value, at any depth. -/
def Upgraded (value : Json) : Prop := ∀ fields, .obj fields ∈ value.parts → NothingToRename fields

section

variable {fields : Keyed Json} {items : List Json} {value : Json}

theorem upgraded_obj_iff : Upgraded (.obj fields) ↔
    NothingToRename fields ∧ ∀ field ∈ fields, Upgraded field.2 := by
  unfold Upgraded
  rw [Json.parts]
  constructor
  · intro h
    refine ⟨h fields (List.mem_cons_self ..), fun field hfield inner hinner => h inner ?_⟩
    exact List.mem_cons_of_mem _ (Json.mem_partsOfFields_iff.mpr ⟨field, hfield, hinner⟩)
  · rintro ⟨hown, hfields⟩ inner hinner
    rcases List.mem_cons.mp hinner with heq | hinner
    · cases heq
      exact hown
    · obtain ⟨field, hfield, hinner⟩ := Json.mem_partsOfFields_iff.mp hinner
      exact hfields field hfield inner hinner

theorem upgraded_arr_iff : Upgraded (.arr items) ↔ ∀ item ∈ items, Upgraded item := by
  unfold Upgraded
  rw [Json.parts]
  constructor
  · intro h item hitem inner hinner
    exact h inner (List.mem_cons_of_mem _ (Json.mem_partsOfItems_iff.mpr ⟨item, hitem, hinner⟩))
  · intro h inner hinner
    have hinner := (List.mem_cons.mp hinner).resolve_left (by simp)
    obtain ⟨item, hitem, hinner⟩ := Json.mem_partsOfItems_iff.mp hinner
    exact h item hitem inner hinner

theorem IsPlain.upgraded (h : IsPlain value) : Upgraded value := by
  intro fields hfields
  rcases h with ⟨text, rfl⟩ | ⟨flag, rfl⟩
  · cases List.mem_singleton.mp hfields
  · cases List.mem_singleton.mp hfields

/-- The upgrade leaves nothing to rename, and it takes one pass for that. -/
theorem upgraded_upgrade (h : value.Distinct) : Upgraded (upgrade value) := by
  induction value using Json.induction with
  | arr items ih =>
    rw [upgrade, upgradeItems_eq, upgraded_arr_iff, List.forall_mem_map]
    exact fun item hitem => ih item hitem (Json.distinct_arr_iff.mp h item hitem)
  | obj fields ih =>
    obtain ⟨hkeys, hfields⟩ := Json.distinct_obj_iff.mp h
    have hnodup := nodup_keys_upgradeFields hkeys
    rw [upgrade, upgraded_obj_iff]
    refine ⟨nothingToRename_renameFields hnodup, fun field hfield => ?_⟩
    -- A field is an upgraded one, or it was put in by the renaming of this object.
    rcases mem_renameFields hnodup hfield with hfield | hplain
    · rw [upgradeFields_eq] at hfield
      obtain ⟨old, hold, rfl⟩ := List.mem_map.mp hfield
      exact ih old hold (hfields old hold)
    · exact hplain.upgraded
  | null => exact fun _ hfields => by cases List.mem_singleton.mp hfields
  | bool flag => exact IsPlain.upgraded (Or.inr ⟨flag, rfl⟩)
  | num _ => exact fun _ hfields => by cases List.mem_singleton.mp hfields
  | str text => exact IsPlain.upgraded (Or.inl ⟨text, rfl⟩)

theorem Upgraded.upgrade_eq (h : Upgraded value) : upgrade value = value := by
  induction value using Json.induction with
  | arr items ih =>
    have hitems : items.map upgrade = items.map id :=
      List.map_congr_left fun item hitem => ih item hitem (upgraded_arr_iff.mp h item hitem)
    rw [upgrade, upgradeItems_eq, hitems, List.map_id]
  | obj fields ih =>
    obtain ⟨hown, hfields⟩ := upgraded_obj_iff.mp h
    have hvalues : Keyed.mapValues upgrade fields = fields.map id :=
      List.map_congr_left fun field hfield =>
        Prod.ext rfl (ih field hfield (hfields field hfield))
    rw [upgrade, upgradeFields_eq, hvalues, List.map_id, hown.renameFields_eq]
  | null => rfl
  | bool _ => rfl
  | num _ => rfl
  | str _ => rfl

/-- The upgrade changes every value in which there is something to rename, and no other. -/
theorem upgrade_eq_self_iff (h : value.Distinct) : upgrade value = value ↔ Upgraded value :=
  ⟨fun heq => heq ▸ upgraded_upgrade h, Upgraded.upgrade_eq⟩

end

/-! ## Converted documents -/

/-- The outcome names no version of Swagger. -/
theorem isVersion2_outcomeOf {root : Keyed Json} (h : (Keyed.keys root).Nodup)
    (paths : Keyed Json) : isVersion2 (upgrade (.obj (outcomeOf root paths))) = false := by
  have hkey : "swagger" ∉ Keyed.keys (outcomeOf root paths) := by
    intro hmem
    rcases mem_keys_outcomeOf hmem with hown | hextension
    · exact absurd hown (by decide)
    · exact absurd hextension (by decide)
  have hnone : (upgrade (.obj (outcomeOf root paths))).get? "swagger" = none := by
    rw [upgrade, Json.get?, get?_upgrade (nodup_keys_outcomeOf h paths) (by decide),
      Keyed.get?_eq_none_iff.mpr hkey]
    rfl
  rw [isVersion2, textAt?, hnone]
  rfl

/-- Nothing of the 2.0 syntax is left in a converted document, whose objects repeated no keys.  It
    is no document of version 2 any more, so that converting it if it is one gives it back; no
    object in it, at any depth, has a reference into a section, a truth value as `x-nullable` or the
    type of files; and the upgrade gives it back as it is, the sequence of its keys included. -/
theorem convert_upgraded {document output : Json} (h : document.Distinct)
    (hconvert : convert document = .ok output) :
    isVersion2 output = false ∧ convertIfVersion2 output = .ok output ∧
      (∀ fields, .obj fields ∈ output.parts → NothingToRename fields) ∧
      upgrade output = output := by
  cases document with
  | obj root =>
    have hroot : (Keyed.keys root).Nodup := (Json.distinct_obj_iff.mp h).1
    obtain ⟨paths, hpaths, rfl⟩ := (convert_obj_eq_ok_iff hroot).mp hconvert
    have hversion := isVersion2_outcomeOf hroot paths
    have hupgraded := upgraded_upgrade (distinct_outcomeOf h (distinct_convertedPaths h hpaths))
    refine ⟨hversion, ?_, hupgraded, hupgraded.upgrade_eq⟩
    rw [convertIfVersion2, hversion]
    rfl
  | _ => cases hconvert

/-- A document with something to rename in what conversion copies, moves and makes up: a definition,
    an extension, a reference to a global parameter, and a form with a file. -/
def photoUpload : Json := .obj [
  ("swagger", .str "2.0"),
  ("x-origin", .obj [("x-nullable", .bool false), ("nullable", .str "old")]),
  ("definitions", .obj [("Pet", .obj [("properties", .obj [
    ("photo", .obj [("x-nullable", .bool true), ("type", .str "file")]),
    ("owner", .obj [("$ref", .str "#/definitions/Owner")])])])]),
  ("parameters", .obj [("trace", .obj [("name", .str "X-Trace"), ("in", .str "header")])]),
  ("paths", .obj [("/pets", .obj [("post", .obj [("parameters", .arr [
    .obj [("$ref", .str "#/parameters/trace")],
    .obj [("name", .str "photo"), ("in", .str "formData"), ("type", .str "file")]])])])])]

theorem photoUpload_upgraded :
    isVersion2 photoUpload = true ∧ upgrade photoUpload ≠ photoUpload ∧
      ∃ output, convert photoUpload = .ok output ∧ convertIfVersion2 output = .ok output ∧
        (∀ fields, .obj fields ∈ output.parts → NothingToRename fields) ∧
        upgrade output = output := by
  have hdistinct : photoUpload.Distinct := by
    simp [photoUpload, Json.Distinct, Json.DistinctFields, Json.DistinctItems, Keyed.keys]
  obtain ⟨output, houtput⟩ : ∃ output, convert photoUpload = .ok output := ⟨_, rfl⟩
  obtain ⟨-, hconvert, hnothing, hupgrade⟩ := convert_upgraded hdistinct houtput
  refine ⟨rfl, fun heq => ?_, output, houtput, hconvert, hnothing, hupgrade⟩
  have hupgraded := (upgrade_eq_self_iff hdistinct).mp heq
  have hextension := (upgraded_obj_iff.mp hupgraded).2 ("x-origin", _)
    (List.mem_cons_of_mem _ (List.mem_cons_self ..))
  exact (upgraded_obj_iff.mp hextension).1.nullable false (List.mem_cons_self ..)

end Swagger
end TypedClient
