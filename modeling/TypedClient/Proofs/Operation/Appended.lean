/-
  TypedClient.Proofs.Operation.Appended

  One more path at the end of a document.  As long as no reference leads into the paths, the
  operations of the other paths are extracted as before, and so are their declarations: what the new
  path adds comes after both.
-/
import TypedClient.Proofs.Operation.Agreement
import TypedClient.Proofs.Operation.Bindings

namespace TypedClient

namespace Reference

/-- The first token of the reference is there, and it is not the key. -/
def Avoids (key reference : String) : Prop :=
  ∃ token rest, tokens reference = token :: rest ∧ token ≠ key

instance (key reference : String) : Decidable (Avoids key reference) :=
  decidable_of_iff ((tokens reference).head?.any (· != key) = true) <| by
    unfold Avoids
    cases tokens reference with
    | nil => simp
    | cons token rest => simp

/-- A reference that avoids a key does not see what stands under it. -/
theorem resolve_insert_of_avoids {key reference : String} (h : Avoids key reference)
    (fields : List (String × Json)) (value : Json) :
    resolve (.obj fields) reference = resolve (.obj (Keyed.insert key value fields)) reference := by
  obtain ⟨token, rest, htokens, hne⟩ := h
  unfold resolve
  rw [htokens, follow, follow, step, step, Keyed.get?_insert_of_ne _ _ hne]

end Reference

/-- Documents in which every reference has the same target are read alike. -/
theorem readsAlike_of_resolve {first second : Json} (h : ∀ reference, second.Mentions reference →
    Reference.resolve first reference = Reference.resolve second reference) :
    ReadsAlike first second where
  targets reference hreference := congrArg (·.map SchemaNode.ofJson) (h reference hreference)
  parameters reference hreference := by rw [h reference hreference]
  bodies reference hreference := by rw [h reference hreference]
  responses reference hreference := by rw [h reference hreference]

namespace Operation

open Document

variable {document : Json} {fuel : Nat}

/-- Operations and entries are added behind those that there are. -/
def Grows (before after : Extraction) : Prop :=
  before.1 <+: after.1 ∧ before.2.entries <+: after.2.entries

/-- Reading one more operation keeps those before it, and the entries. -/
theorem grows_of_extractWritten {before after : Extraction} {written : Written}
    (h : extractWritten document fuel before written = some after) : Grows before after := by
  obtain ⟨⟨operation, registry⟩, hextract, h⟩ := Option.bind_eq_some_iff.mp h
  cases h
  exact ⟨List.prefix_append .., (Registry.addAll_extends (extract_eq hextract).2).entries⟩

/-- Reading more operations keeps those before them, and the entries. -/
theorem grows_of_foldlM {before after : Extraction} {more : List Written}
    (h : more.foldlM (extractWritten document fuel) before = some after) : Grows before after := by
  refine foldlM_preserves (P := Grows before) ?_ h ⟨List.prefix_rfl, List.prefix_rfl⟩
  intro middle written next hstep hgrows
  have hnext := grows_of_extractWritten hstep
  exact ⟨hgrows.1.trans hnext.1, hgrows.2.trans hnext.2⟩

/-- The document of some fields, with other paths. -/
def withPaths (fields paths : List (String × Json)) : Json :=
  .obj (Keyed.insert "paths" (.obj paths) fields)

theorem get?_withPaths (fields paths : List (String × Json)) :
    (withPaths fields paths).get? "paths" = some (.obj paths) :=
  Keyed.get?_insert_self ..

/-- The operations that are written under a path. -/
def writtenUnder (path : String × Json) : List Written :=
  match PathItem.ofJson? path.2 with
  | none => []
  | some item => item.operations.map fun raw => ⟨path.1, raw.1, raw.2, item.parameters⟩

/-- The operations of a document are those under each of its paths. -/
theorem written_eq {document : Json} {paths : List (String × Json)}
    (h : document.get? "paths" = some (.obj paths)) :
    written document = paths.flatMap writtenUnder := by
  unfold written
  rw [h]
  rfl

/-- When a path is added after the others, no reference leads to the whole document or into its
    paths, and the document is extracted: without that path it is extracted as well, its operations
    are the first of those with the path, and its entries are the first of theirs. -/
theorem extractAll_withPath {fields paths : List (String × Json)} {path : String × Json}
    (hpaths : (Json.obj fields).get? "paths" = some (.obj paths))
    (hreferences : ∀ reference, (withPaths fields (paths ++ [path])).Mentions reference →
      Reference.Avoids "paths" reference)
    {operations : List Operation} {registry : Registry}
    (h : extractAll (withPaths fields (paths ++ [path])) fuel .empty =
      some (operations, registry)) :
    ∃ operations' registry', extractAll (.obj fields) fuel .empty = some (operations', registry') ∧
      operations' <+: operations ∧ registry'.entries <+: registry.entries := by
  have halike : ReadsAlike (.obj fields) (withPaths fields (paths ++ [path])) :=
    readsAlike_of_resolve fun reference hreference =>
      Reference.resolve_insert_of_avoids (hreferences reference hreference) fields _
  have hwritten : written (withPaths fields (paths ++ [path])) =
      written (.obj fields) ++ writtenUnder path := by
    rw [written_eq (get?_withPaths ..), written_eq hpaths, List.flatMap_append,
      List.flatMap_singleton]
  rw [extractAll_eq, hwritten, List.foldlM_append] at h
  obtain ⟨⟨operations', registry'⟩, hfirst, hrest⟩ := Option.bind_eq_some_iff.mp h
  refine ⟨operations', registry', ?_, grows_of_foldlM hrest⟩
  -- Up to the new path, each step of the run is a step of the run without it.
  rw [extractAll_eq, ← hfirst]
  refine foldlM_congr (fun written hmem state => ?_) _
  refine extractWritten_congr halike (local_of_mem_written ?_) state
  rw [hwritten]
  exact List.mem_append_left _ hmem

/-! ### An endpoint that shares a declaration -/

/-- A path whose only operation, of some id, answers with a schema. -/
def answeringWith (operationId : String) (schema : Json) : Json :=
  .obj [("get", .obj [("operationId", .str operationId), ("responses", .obj [("200", .obj [
    ("content", .obj [("application/json", .obj [("schema", schema)])])])])])]

/-- A path that answers with all pets. -/
def petsPath : String × Json :=
  ("/pets", answeringWith "listPets" (.obj [("type", .str "array"),
    ("items", .obj [("$ref", .str "#/components/schemas/Pet")])]))

/-- The fields of a document that names pets and their owners. -/
def shelterFields : List (String × Json) :=
  [("paths", .obj [petsPath]),
    ("components", .obj [("schemas", .obj [
      ("Pet", .obj [("type", .str "object"), ("properties", .obj [
        ("owner", .obj [("$ref", .str "#/components/schemas/Owner")])])]),
      ("Owner", .obj [("type", .str "object")])])])]

/-- A path that answers with a pet, and its owner's address. -/
def petPath : String × Json :=
  ("/pets/\x7bid\x7d", answeringWith "getPet" (.obj [("properties", .obj [
    ("pet", .obj [("$ref", .str "#/components/schemas/Pet")]),
    ("address", .obj [("enum", .arr [.str "home", .str "work"])])])]))

/-- The second endpoint leaves the first one and its three declarations as they are. -/
theorem shelter_keeps_listPets : ∃ operations registry operations' registry',
    extractAll (withPaths shelterFields [petsPath, petPath]) 64 .empty =
        some (operations, registry) ∧
      operations.map (·.id) = ["listPets", "getPet"] ∧
      registry.names = ["Owner", "Pet", "ListPets200", "GetPet200Address", "GetPet200"] ∧
      extractAll (.obj shelterFields) 64 .empty = some (operations', registry') ∧
      operations' <+: operations ∧ registry'.entries <+: registry.entries := by
  have hends : (extractAll (withPaths shelterFields [petsPath, petPath]) 64 .empty).map
      (fun result => (result.1.map (·.id), result.2.names)) =
        some (["listPets", "getPet"],
          ["Owner", "Pet", "ListPets200", "GetPet200Address", "GetPet200"]) := by
    decide +kernel
  obtain ⟨⟨operations, registry⟩, h, hnames⟩ := Option.map_eq_some_iff.mp hends
  obtain ⟨hids, hnames⟩ := Prod.mk.inj hnames
  have hreferences : ∀ reference ∈ (withPaths shelterFields [petsPath, petPath]).references,
      Reference.Avoids "paths" reference := by
    decide +kernel
  have hpaths : (Json.obj shelterFields).get? "paths" = some (.obj [petsPath]) := rfl
  obtain ⟨operations', registry', hfirst, hgrows⟩ := extractAll_withPath hpaths
    (fun reference hmentions => hreferences reference (Json.mem_references.mpr hmentions)) h
  exact ⟨operations, registry, operations', registry', h, hids, hnames, hfirst, hgrows⟩

end Operation
end TypedClient
