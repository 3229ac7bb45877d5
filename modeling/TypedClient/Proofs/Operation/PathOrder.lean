/-
  TypedClient.Proofs.Operation.PathOrder

  The paths of a document in another order.  References still lead to the same values, save one to
  the paths or to the whole document, and there a key still has the same value.  So with ids that
  differ from the start the operations make the same calls, in another sequence, and the two
  registries agree when the claims of the calls are coherent.
-/
import TypedClient.Proofs.Operation.Appended
import TypedClient.Proofs.Registry.Claims
import TypedClient.Proofs.Schema.Keywords

namespace TypedClient

open Document
open Registry (Request)

/-! ## Objects whose fields are in another order -/

/-- No key is repeated, and every key but that of the paths has the same value in both. -/
structure SameFields (first second : List (String × Json)) : Prop where
  nodup : (Keyed.keys first).Nodup
  nodup' : (Keyed.keys second).Nodup
  get? : ∀ key, key ≠ "paths" → Keyed.get? key first = Keyed.get? key second

namespace SameFields

variable {first second : List (String × Json)}

theorem ofFields_eq (h : SameFields first second) :
    Schema.ofFields first = Schema.ofFields second := by
  refine Schema.ofFields_congr h.nodup h.nodup' fun key hkey => h.get? key ?_
  rintro rfl
  revert hkey
  decide

theorem fieldsOf?_eq (h : SameFields first second) {names : List String}
    (hnames : "paths" ∉ names) : fieldsOf? names (.obj first) = fieldsOf? names (.obj second) := by
  unfold fieldsOf?
  dsimp only
  congr 1
  refine List.map_congr_left fun name hname => h.get? name ?_
  rintro rfl
  exact hnames hname

theorem maybeRef_eq {α : Type} {read : Json → Option α} (h : SameFields first second)
    (hread : read (.obj first) = read (.obj second)) :
    MaybeRef.ofJson? read (.obj first) = MaybeRef.ofJson? read (.obj second) := by
  have href : (Json.obj first).get? "$ref" = (Json.obj second).get? "$ref" :=
    h.get? "$ref" (by decide)
  unfold MaybeRef.ofJson?
  rw [href, hread]

theorem parameter_eq (h : SameFields first second) :
    Parameter.ofJson? (.obj first) = Parameter.ofJson? (.obj second) := by
  unfold Parameter.ofJson?
  rw [h.fieldsOf?_eq (by decide)]

theorem body_eq (h : SameFields first second) :
    RequestBody.ofJson? (.obj first) = RequestBody.ofJson? (.obj second) := by
  unfold RequestBody.ofJson?
  rw [h.fieldsOf?_eq (by decide)]

theorem response_eq (h : SameFields first second) :
    Response.ofJson? (.obj first) = Response.ofJson? (.obj second) := by
  unfold Response.ofJson?
  rw [h.fieldsOf?_eq (by decide)]

end SameFields

/-- The two values are the same, or they are objects with the same fields. -/
inductive SameValues : Option Json → Option Json → Prop where
  | same (value : Option Json) : SameValues value value
  | fields {first second : List (String × Json)} (fields : SameFields first second) :
      SameValues (some (.obj first)) (some (.obj second))

/-- Reading the same values gives the same, if it does for objects with the same fields. -/
theorem SameValues.bind_eq {α : Type} {read : Json → Option α} {first second : Option Json}
    (h : SameValues first second) (hread : ∀ fields others, SameFields fields others →
      read (.obj fields) = read (.obj others)) : first.bind read = second.bind read := by
  cases h with
  | same => rfl
  | fields fields => exact hread _ _ fields

theorem readsAlike_of_sameValues {first second : Json} (h : ∀ reference,
    SameValues (Reference.resolve first reference) (Reference.resolve second reference)) :
    ReadsAlike first second where
  targets reference _ := by
    unfold Reference.resolveNode
    rw [Option.map_eq_bind, Option.map_eq_bind]
    exact (h reference).bind_eq fun fields others hfields =>
      congrArg (fun schema => some (SchemaNode.object schema)) hfields.ofFields_eq
  parameters reference _ := (h reference).bind_eq fun _ _ hfields =>
    hfields.maybeRef_eq hfields.parameter_eq
  bodies reference _ := (h reference).bind_eq fun _ _ hfields =>
    hfields.maybeRef_eq hfields.body_eq
  responses reference _ := (h reference).bind_eq fun _ _ hfields =>
    hfields.maybeRef_eq hfields.response_eq

/-! ## Documents whose paths are in another order -/

section

variable {fields paths order : List (String × Json)}

/-- References see the same, in whatever order the paths are. -/
theorem resolve_withPaths (hfields : (Keyed.keys fields).Nodup) (hnodup : (Keyed.keys paths).Nodup)
    (hpaths : (Json.obj fields).get? "paths" = some (.obj paths)) (hperm : order.Perm paths)
    (reference : String) : SameValues (Reference.resolve (.obj fields) reference)
      (Reference.resolve (Operation.withPaths fields order) reference) := by
  have hkeys : (Keyed.keys (Keyed.insert "paths" (.obj order) fields)).Nodup :=
    Keyed.nodup_keys_insert hfields
  have horder : (Keyed.keys order).Nodup := (hperm.map Prod.fst).nodup_iff.mpr hnodup
  unfold Reference.resolve
  split
  · cases Reference.tokens reference with
    -- Without a token the reference leads to the whole document, where only the paths differ.
    | nil =>
      refine .fields ⟨hfields, hkeys, fun key hkey => ?_⟩
      exact (Keyed.get?_insert_of_ne _ _ hkey).symm
    | cons token rest =>
      rw [Reference.follow, Reference.follow]
      by_cases htoken : token = "paths"
      · subst htoken
        have hafter : Reference.step (Operation.withPaths fields order) "paths" =
            some (.obj order) := Operation.get?_withPaths fields order
        have hbefore : Reference.step (.obj fields) "paths" = some (.obj paths) := hpaths
        rw [hbefore, hafter, Option.bind_some, Option.bind_some]
        have hget : ∀ key, Keyed.get? key paths = Keyed.get? key order :=
          fun key => (Keyed.get?_perm hperm horder key).symm
        -- With one token it leads to all paths; with more, to what is in one of them.
        cases rest with
        | nil => exact .fields ⟨hnodup, horder, fun key _ => hget key⟩
        | cons path more =>
          rw [Reference.follow, Reference.follow]
          dsimp only [Reference.step]
          rw [hget path]
          exact .same _
      · have hstep : Reference.step (Operation.withPaths fields order) token =
            Reference.step (.obj fields) token := Keyed.get?_insert_of_ne _ _ htoken
        rw [hstep]
        exact .same _
  · exact .same none

end

namespace Operation

/-! ## Ids that differ from the start -/

/-- The id that the names of its shapes start with. -/
def baseSchemaId (written : Written) : String :=
  (baseIds written.path written.method written.raw).2

/-- No two operations have the same id to begin with, nor do their shapes. -/
structure DistinctIds (document : Json) : Prop where
  ids : ((written document).map baseId).Nodup
  schemaIds : ((written document).map baseSchemaId).Nodup

/-- A written operation with its ids as they are. -/
def Reading.plain (written : Written) : Reading :=
  ⟨written, baseId written, baseSchemaId written⟩

/-- A new id is taken as it is. -/
theorem Reading.of_eq_plain {taken : List String} {written : Written}
    (h : baseId written ∉ taken) : Reading.of taken written = Reading.plain written := by
  have hsuffix : suffixFor taken (baseId written) = "" := suffixFor_of_not_mem h
  unfold baseId at hsuffix
  unfold Reading.of Reading.plain baseId baseSchemaId
  dsimp only
  rw [hsuffix, String.append_empty, String.append_empty]

/-- Ids that differ are taken as they are. -/
theorem readFrom_eq_plain {taken : List String} {written : List Written}
    (h : (taken ++ written.map baseId).Nodup) :
    readFrom taken written = written.map Reading.plain := by
  induction written generalizing taken with
  | nil => rfl
  | cons first rest ih =>
    -- The first id is taken when the rest is read.
    rw [List.map_cons, ← List.singleton_append, ← List.append_assoc] at h
    have hfirst : Reading.of taken first = Reading.plain first := by
      refine Reading.of_eq_plain fun hmem => ?_
      have htaken := (List.nodup_append.mp h).1
      exact (List.nodup_append.mp htaken).2.2 _ hmem _ (List.mem_singleton.mpr rfl) rfl
    have hrest : readFrom (taken ++ [(Reading.plain first).id]) rest =
        rest.map Reading.plain := ih h
    rw [readFrom, hfirst, hrest]
    rfl

theorem calls_eq_of_distinctIds {document : Json} (h : DistinctIds document) :
    calls document = (written document).flatMap fun written =>
      (Reading.plain written).requests document := by
  have hreadings : readings document = (written document).map Reading.plain :=
    readFrom_eq_plain (List.nil_append _ ▸ h.ids)
  unfold calls
  rw [hreadings, List.flatMap_map]

variable {fields paths order : List (String × Json)}

/-- In another order of the paths the operations come in another order. -/
theorem written_perm (hpaths : (Json.obj fields).get? "paths" = some (.obj paths))
    (hperm : order.Perm paths) :
    (written (withPaths fields order)).Perm (written (.obj fields)) := by
  rw [written_eq (get?_withPaths ..), written_eq hpaths]
  exact hperm.flatMap_right _

/-- The document of the fields has ids that differ from the start, and it is extracted to the two
    registries with its paths in the order that they have and in another one. -/
structure Reordered (fields paths order : List (String × Json)) (registry registry' : Registry) :
    Prop where
  distinct : (Json.obj fields).Distinct
  listed : (Json.obj fields).get? "paths" = some (.obj paths)
  perm : order.Perm paths
  ids : DistinctIds (.obj fields)
  before : ∃ fuel operations,
    extractAll (.obj fields) fuel .empty = some (operations, registry)
  after : ∃ fuel operations,
    extractAll (withPaths fields order) fuel .empty = some (operations, registry')

section

variable {registry registry' : Registry}

/-- References see the same in both documents. -/
theorem Reordered.readsAlike (h : Reordered fields paths order registry registry') :
    ReadsAlike (.obj fields) (withPaths fields order) := by
  have hdistinct := h.distinct
  rw [Json.Distinct] at hdistinct
  have hpaths : (Json.obj paths).Distinct := hdistinct.2.of_mem (Keyed.mem_of_get? h.listed)
  rw [Json.Distinct] at hpaths
  exact readsAlike_of_sameValues (resolve_withPaths hdistinct.1 hpaths.1 h.listed h.perm)

/-- The calls of the reordered document are those of the same operations. -/
theorem Reordered.calls_eq (h : Reordered fields paths order registry registry') :
    calls (withPaths fields order) = (written (withPaths fields order)).flatMap fun written =>
      (Reading.plain written).requests (withPaths fields order) := by
  have hwritten := written_perm h.listed h.perm
  exact calls_eq_of_distinctIds ⟨(hwritten.map baseId).nodup_iff.mpr h.ids.ids,
    (hwritten.map baseSchemaId).nodup_iff.mpr h.ids.schemaIds⟩

/-- Both documents make the same calls. -/
theorem Reordered.mem_calls_iff (h : Reordered fields paths order registry registry')
    (request : Request) :
    request ∈ calls (withPaths fields order) ↔ request ∈ calls (.obj fields) := by
  have hwritten := written_perm h.listed h.perm
  rw [h.calls_eq, calls_eq_of_distinctIds h.ids, List.mem_flatMap, List.mem_flatMap]
  refine exists_congr fun written => ?_
  rw [hwritten.mem_iff]
  refine and_congr_right fun hmem => ?_
  -- The operation is written in either document, and so reads alike in both.
  have hlocal := local_of_mem_written (hwritten.mem_iff.mpr hmem)
  have hsame : (Reading.plain written).requests (.obj fields) =
      (Reading.plain written).requests (withPaths fields order) :=
    Reading.requests_congr h.readsAlike hlocal
  rw [hsame]

/-- The second registry is also one that calls of the first document lead to. -/
theorem Reordered.adds (h : Reordered fields paths order registry registry') :
    Registry.Adds (.obj fields) (calls (withPaths fields order)) registry' := by
  obtain ⟨fuel, operations, hafter⟩ := h.after
  refine (Registry.adds_of_addAll (extractAll_reads hafter).2).congr h.readsAlike.targets ?_
  intro request hrequest
  rw [h.calls_eq] at hrequest
  obtain ⟨written, hmem, hrequest⟩ := List.mem_flatMap.mp hrequest
  exact Reading.local_of_mem_requests (local_of_mem_written hmem) hrequest

/-- When no two different schemas claim one name unless both are enumerations, the names of the
    entries do not depend on the order of the paths.  Of two entries under one name both are
    enumerations or none is.  They have the same schema unless they are different enumerations that
    both claim the name; and both are classes or none is, unless the name is claimed both as a class
    and as an alias. -/
theorem Reordered.registries_agree (h : Reordered fields paths order registry registry')
    (hcoherent : Registry.Coherent (.obj fields) (calls (.obj fields))) :
    Registry.Agree (.obj fields) (calls (.obj fields)) registry registry' := by
  obtain ⟨fuel, operations, hbefore⟩ := h.before
  exact hcoherent.agree (Registry.adds_of_addAll (extractAll_reads hbefore).2) h.adds
    (fun request => (h.mem_calls_iff request).mpr) fun request => (h.mem_calls_iff request).mp

end

/-! ### Two paths in either order -/

/-- What there is to tell about the entries: names, flags, and the texts that enumerations list. -/
def outline (registry : Registry) : List (String × Bool × Bool × List String) :=
  registry.entries.map fun (name, entry) =>
    (name, entry.isClass, entry.isEnum,
      ((entry.schema.object?.bind (·.enum)).getD []).filterMap Json.asString?)

/-- The registries have the same entries. -/
def SameEntries (registry registry' : Registry) : Prop :=
  ∀ entry, entry ∈ registry.entries ↔ entry ∈ registry'.entries

/-- The same entries have the same outline, up to its order. -/
theorem SameEntries.mem_outline {registry registry' : Registry} (h : SameEntries registry registry')
    {line : String × Bool × Bool × List String} (hline : line ∈ outline registry) :
    line ∈ outline registry' := by
  obtain ⟨entry, hentry, rfl⟩ := List.mem_map.mp hline
  exact List.mem_map.mpr ⟨entry, (h entry).mp hentry, rfl⟩

/-- A path that answers with a value. -/
def firstPath (value : Json) : String × Json := ("/first", answeringWith "getFirst" value)

/-- Another path that answers with a value. -/
def secondPath (value : Json) : String × Json := ("/second", answeringWith "getSecond" value)

/-- The fields of a document with both paths and some named schemas. -/
def answers (first second : Json) (schemas : List (String × Json)) : List (String × Json) :=
  [("paths", .obj [firstPath first, secondPath second]),
    ("components", .obj [("schemas", .obj schemas)])]

/-- A reference to a named schema. -/
def referenceTo (name : String) : Json := .obj [("$ref", .str ("#/components/schemas/" ++ name))]

/-- With its paths in either order the document is extracted to registries with these outlines. -/
theorem exists_reordered {first second : Json} {schemas : List (String × Json)}
    {lines lines' : List (String × Bool × Bool × List String)}
    (hdistinct : (Json.obj (answers first second schemas)).Distinct)
    (hids : DistinctIds (.obj (answers first second schemas)))
    (hbefore : (extractAll (.obj (answers first second schemas)) 64 .empty).map (outline ·.2) =
      some lines)
    (hafter : (extractAll (withPaths (answers first second schemas)
      [secondPath second, firstPath first]) 64 .empty).map (outline ·.2) = some lines') :
    ∃ registry registry', Reordered (answers first second schemas)
      [firstPath first, secondPath second] [secondPath second, firstPath first]
      registry registry' ∧ outline registry = lines ∧ outline registry' = lines' := by
  obtain ⟨⟨operations, registry⟩, hbefore, hlines⟩ := Option.map_eq_some_iff.mp hbefore
  obtain ⟨⟨operations', registry'⟩, hafter, hlines'⟩ := Option.map_eq_some_iff.mp hafter
  exact ⟨registry, registry', ⟨hdistinct, rfl, .swap .., hids, ⟨64, operations, hbefore⟩,
    ⟨64, operations', hafter⟩⟩, hlines, hlines'⟩

/-! ### A schema that is first an alias, or first a class -/

/-- A list of pets. -/
def petList : Json := .obj [("type", .str "array"), ("items", referenceTo "Pet")]

/-- A pet of some kind. -/
def petSchemas : List (String × Json) :=
  [("Pet", .obj [("properties", .obj [("kind", .obj [("enum", .arr [.str "cat", .str "dog"])])])])]

/-- A document that answers with all pets, and with one of them. -/
def kennelFields : List (String × Json) := answers petList (referenceTo "Pet") petSchemas

/-- The pet is an alias when the list comes first, and a class when the pet comes first. -/
theorem kennel_reordered : ∃ registry registry', Reordered kennelFields
      [firstPath petList, secondPath (referenceTo "Pet")]
      [secondPath (referenceTo "Pet"), firstPath petList] registry registry' ∧
    outline registry = [("PetKind", false, true, ["cat", "dog"]), ("Pet", false, false, []),
      ("GetFirst200", false, false, [])] ∧
    outline registry' = [("PetKind", false, true, ["cat", "dog"]), ("Pet", true, false, []),
      ("GetFirst200", false, false, [])] := by
  refine exists_reordered ?_ ⟨by decide +kernel, by decide +kernel⟩ (by decide +kernel)
    (by decide +kernel)
  simp [Json.Distinct, Json.DistinctFields, Json.DistinctItems, Keyed.keys, answers, petList,
    petSchemas, firstPath, secondPath, referenceTo, answeringWith]

section Kennel

/-- The schema that is inside the list. -/
def petItem : Schema := { ref := some "#/components/schemas/Pet" }

/-- The schema of the list. -/
def petItems : Schema :=
  { type := some (.single "array"), items := some (.single (.object petItem)) }

/-- The schema of the kind of a pet. -/
def petKind : Schema := { enum := some [.str "cat", .str "dog"] }

/-- The schema of a pet. -/
def pet : Schema := { properties := some [("kind", .object petKind)] }

/-- The schemas that walks come to, each with the name of its place. -/
def kennelSites : List (Schema × Option String) :=
  [(petItems, some "GetFirst200"), (petItem, none), (pet, some "Pet"), (petKind, some "PetKind")]

/-- The schemas of the entries. -/
def kennelSchemas : Keyed SchemaNode :=
  [("GetFirst200", .object petItems), ("Pet", .object pet), ("PetKind", .object petKind)]

theorem normal_of_mem_kennelSites {schema : Schema} {place : Option String}
    (h : (schema, place) ∈ kennelSites) : Schema.Normal schema := by
  simp only [kennelSites, List.mem_cons, List.not_mem_nil, or_false] at h
  rcases h with h | h | h | h <;> cases h <;> exact Schema.normal_of_plain rfl rfl rfl nofun

theorem read_of_mem_kennelSites {schema : Schema} {place : Option String}
    (h : (schema, place) ∈ kennelSites) : (SchemaNode.object schema).toSchema? = some schema :=
  SchemaNode.toSchema?_of_normal (normal_of_mem_kennelSites h)

/-- What is stored for the reference to a pet, and its name. -/
theorem kennel_target {target stored : SchemaNode}
    (hresolves : Reference.resolveNode (.obj kennelFields) "#/components/schemas/Pet" = some target)
    (hstores : target.Stores (.obj kennelFields) stored) :
    Reference.name "#/components/schemas/Pet" = "Pet" ∧ stored = .object pet := by
  have hpet : Reference.resolveNode (.obj kennelFields) "#/components/schemas/Pet" =
      some (.object pet) := by with_unfolding_all rfl
  obtain rfl := Option.some.inj (hpet.symm.trans hresolves)
  exact ⟨by decide +kernel, hstores.eq_of_normal (Schema.normal_of_plain rfl rfl rfl nofun) rfl⟩

/-- One call adds the list, and the other one is the reference to a pet. -/
theorem kennel_calls {request : Request} (h : request ∈ calls (.obj kennelFields)) :
    (request.reference? = none ∧ request.name = "GetFirst200" ∧ request.root = .object petItems) ∨
      request.reference? = some "#/components/schemas/Pet" := by
  have hcalls : calls (.obj kennelFields) =
      [⟨"GetFirst200", .object petItems, true⟩, ⟨"GetSecond200", .object petItem, true⟩] := rfl
  have hitems : petItems.cleanup = petItems :=
    Schema.cleanup_of_normal (Schema.normal_of_plain rfl rfl rfl nofun)
  have hitem : petItem.cleanup = petItem :=
    Schema.cleanup_of_normal (Schema.normal_of_plain rfl rfl rfl nofun)
  rw [hcalls] at h
  simp only [List.mem_cons, List.not_mem_nil, or_false] at h
  unfold Request.reference? SchemaNode.cleanup
  rcases h with rfl | rfl
  · refine Or.inl ⟨?_, rfl, rfl⟩
    dsimp only
    rw [hitems]
    rfl
  · refine Or.inr ?_
    dsimp only
    rw [hitem]
    rfl

theorem kennel_shape {request : Request} {stored : SchemaNode}
    (hmem : request ∈ calls (.obj kennelFields)) (hinline : request.reference? = none)
    (hstores : request.root.Stores (.obj kennelFields) stored) :
    request.name = "GetFirst200" ∧ stored = .object petItems := by
  rcases kennel_calls hmem with ⟨-, hname, hroot⟩ | hanswers
  · rw [hroot] at hstores
    exact ⟨hname, hstores.eq_of_normal (Schema.normal_of_plain rfl rfl rfl nofun) rfl⟩
  · cases hinline.symm.trans hanswers

theorem kennel_answered {request : Request} {reference : String} {target stored : SchemaNode}
    (hmem : request ∈ calls (.obj kennelFields)) (hanswers : request.reference? = some reference)
    (hresolves : Reference.resolveNode (.obj kennelFields) reference = some target)
    (hstores : target.Stores (.obj kennelFields) stored) :
    Reference.name reference = "Pet" ∧ stored = .object pet := by
  rcases kennel_calls hmem with ⟨hinline, -⟩ | hpet
  · cases hinline.symm.trans hanswers
  · obtain rfl := Option.some.inj (hpet.symm.trans hanswers)
    exact kennel_target hresolves hstores

/-- What a walk does at each site. -/
theorem kennel_visit {schema : Schema} {place : Option String} (h : (schema, place) ∈ kennelSites) :
    (schema.visit place = .enumeration ∧ schema = petKind ∧ place = some "PetKind") ∨
      schema.visit place = .reference "#/components/schemas/Pet" ∨
      ∃ inner ∈ kennelSites, schema.visit place = .positions [(.object inner.1, inner.2)] := by
  have hkind : pet.visit (some "Pet") = .positions [(.object petKind, some "PetKind")] := by
    with_unfolding_all rfl
  simp only [kennelSites, List.mem_cons, List.not_mem_nil, or_false] at h
  rcases h with h | h | h | h <;> cases h
  · exact Or.inr (Or.inr ⟨(petItem, none), by simp [kennelSites], rfl⟩)
  · exact Or.inr (Or.inl rfl)
  · exact Or.inr (Or.inr ⟨(petKind, some "PetKind"), by simp [kennelSites], hkind⟩)
  · exact Or.inl ⟨rfl, rfl, rfl⟩

/-- Walks come to no other sites. -/
theorem kennel_reached {node : SchemaNode} {place : Option String}
    (h : Registry.Reached (.obj kennelFields) (calls (.obj kennelFields)) node place) :
    ∃ schema, node.toSchema? = some schema ∧ (schema, place) ∈ kennelSites := by
  have hitems : (petItems, some "GetFirst200") ∈ kennelSites := by simp [kennelSites]
  have hpet : (pet, some "Pet") ∈ kennelSites := by simp [kennelSites]
  induction h with
  | shape mem inline stores =>
    obtain ⟨hname, rfl⟩ := kennel_shape mem inline stores
    exact ⟨petItems, read_of_mem_kennelSites hitems, hname ▸ hitems⟩
  | answered mem answers resolves stores =>
    obtain ⟨hname, rfl⟩ := kennel_answered mem answers resolves stores
    exact ⟨pet, read_of_mem_kennelSites hpet, hname ▸ hpet⟩
  | target _ read visit resolves stores ih =>
    obtain ⟨schema, hschema, hsite⟩ := ih
    obtain rfl := Option.some.inj (hschema.symm.trans read)
    rcases kennel_visit hsite with ⟨hvisit, -⟩ | hvisit | ⟨inner, -, hvisit⟩ <;>
      cases hvisit.symm.trans visit
    obtain ⟨hname, rfl⟩ := kennel_target resolves stores
    exact ⟨pet, read_of_mem_kennelSites hpet, hname ▸ hpet⟩
  | position _ read visit mem ih =>
    obtain ⟨schema, hschema, hsite⟩ := ih
    obtain rfl := Option.some.inj (hschema.symm.trans read)
    rcases kennel_visit hsite with ⟨hvisit, -⟩ | hvisit | ⟨inner, hinner, hvisit⟩ <;>
      cases hvisit.symm.trans visit
    cases List.mem_singleton.mp mem
    exact ⟨inner.1, read_of_mem_kennelSites hinner, hinner⟩
  | composition _ read visit _ ih =>
    obtain ⟨schema, hschema, hsite⟩ := ih
    obtain rfl := Option.some.inj (hschema.symm.trans read)
    rcases kennel_visit hsite with ⟨hvisit, -⟩ | hvisit | ⟨inner, -, hvisit⟩ <;>
      cases hvisit.symm.trans visit
  | congr _ same ih =>
    obtain ⟨schema, hschema, hsite⟩ := ih
    exact ⟨schema, same.trans hschema, hsite⟩

/-- Every name is claimed for one schema. -/
theorem kennel_claims {name : String} {entry : Entry}
    (h : Registry.Claims (.obj kennelFields) (calls (.obj kennelFields)) name entry) :
    Keyed.get? name kennelSchemas = some entry.schema := by
  cases h with
  | shape mem inline stores =>
    obtain ⟨hname, rfl⟩ := kennel_shape mem inline stores
    rw [hname]
    rfl
  | answered mem answers resolves stores =>
    obtain ⟨hname, rfl⟩ := kennel_answered mem answers resolves stores
    rw [hname]
    rfl
  | target reached read visit resolves stores =>
    obtain ⟨schema, hschema, hsite⟩ := kennel_reached reached
    obtain rfl := Option.some.inj (hschema.symm.trans read)
    rcases kennel_visit hsite with ⟨hvisit, -⟩ | hvisit | ⟨inner, -, hvisit⟩ <;>
      cases hvisit.symm.trans visit
    obtain ⟨hname, rfl⟩ := kennel_target resolves stores
    rw [hname]
    rfl
  | enumeration reached read visit =>
    obtain ⟨schema, hschema, hsite⟩ := kennel_reached reached
    obtain rfl := Option.some.inj (hschema.symm.trans read)
    rcases kennel_visit hsite with ⟨-, rfl, hplace⟩ | hvisit | ⟨inner, -, hvisit⟩
    · cases hplace
      rfl
    · cases hvisit.symm.trans visit
    · cases hvisit.symm.trans visit
  | composition reached read visit =>
    obtain ⟨schema, hschema, hsite⟩ := kennel_reached reached
    obtain rfl := Option.some.inj (hschema.symm.trans read)
    rcases kennel_visit hsite with ⟨hvisit, -⟩ | hvisit | ⟨inner, -, hvisit⟩ <;>
      cases hvisit.symm.trans visit

/-- The registries of the kennel agree, though the pet is declared in two ways; and no name is
    disputed, so that each one has the same schema in both. -/
theorem kennel_agrees : ∃ registry registry', Reordered kennelFields
      [firstPath petList, secondPath (referenceTo "Pet")]
      [secondPath (referenceTo "Pet"), firstPath petList] registry registry' ∧
    Registry.Coherent (.obj kennelFields) (calls (.obj kennelFields)) ∧
    Registry.Agree (.obj kennelFields) (calls (.obj kennelFields)) registry registry' ∧
    ("Pet", false, false, []) ∈ outline registry ∧
    ("Pet", true, false, []) ∈ outline registry' ∧
    ∀ name entry other, registry.get? name = some entry → registry'.get? name = some other →
      entry.schema = other.schema := by
  obtain ⟨registry, registry', hreordered, hlines, hlines'⟩ := kennel_reordered
  have hcoherent : Registry.Coherent (.obj kennelFields) (calls (.obj kennelFields)) := by
    intro name first second hfirst hsecond
    exact Or.inl (Option.some.inj ((kennel_claims hfirst).symm.trans (kennel_claims hsecond)))
  have hagree := hreordered.registries_agree hcoherent
  refine ⟨registry, registry', hreordered, hcoherent, hagree, ?_, ?_, ?_⟩
  · rw [hlines]
    simp
  · rw [hlines']
    simp
  · intro name entry other hentry hother
    refine (hagree.entries name entry other hentry hother).schema.resolve_right fun hdisputed => ?_
    obtain ⟨hclaims, hclaims'⟩ := hdisputed.claims
    exact hdisputed.differ
      (Option.some.inj ((kennel_claims hclaims).symm.trans (kennel_claims hclaims')))

end Kennel

/-! ### Entries that depend on the order -/

/-- With its paths in either order a document is extracted to registries with these outlines, which
    do not have the same entries. -/
def Differs (first second : Json) (schemas : List (String × Json))
    (lines lines' : List (String × Bool × Bool × List String)) : Prop :=
  ∃ registry registry', Reordered (answers first second schemas)
      [firstPath first, secondPath second] [secondPath second, firstPath first]
      registry registry' ∧
    outline registry = lines ∧ outline registry' = lines' ∧ ¬ SameEntries registry registry'

/-- A document differs in two orders when an outline has a line that the other one does not have. -/
theorem differs_of_line {first second : Json} {schemas : List (String × Json)}
    {lines lines' : List (String × Bool × Bool × List String)}
    (h : ∃ registry registry', Reordered (answers first second schemas)
      [firstPath first, secondPath second] [secondPath second, firstPath first]
      registry registry' ∧ outline registry = lines ∧ outline registry' = lines')
    (hline : ∃ line ∈ lines, line ∉ lines') : Differs first second schemas lines lines' := by
  obtain ⟨registry, registry', hreordered, hlines, hlines'⟩ := h
  obtain ⟨line, hmem, hnot⟩ := hline
  refine ⟨registry, registry', hreordered, hlines, hlines', fun hsame => hnot ?_⟩
  exact hlines' ▸ hsame.mem_outline (hlines ▸ hmem)

/-- Two schemas whose names differ, but not their identifiers: an object that has a pet, and an
    enumeration. -/
def objectAndEnum : List (String × Json) :=
  [("foo-bar", .obj [("properties", .obj [("pet", referenceTo "Pet")])]),
    ("fooBar", .obj [("enum", .arr [.str "a"])]), ("Pet", .obj [("type", .str "object")])]

/-- Two enumerations whose names differ, but not their identifiers. -/
def twoEnums : List (String × Json) :=
  [("foo-bar", .obj [("enum", .arr [.str "a"])]), ("fooBar", .obj [("enum", .arr [.str "b"])])]

/-- The entries depend on the order of the paths, with ids that differ: a name that is claimed as a
    class and as an alias is declared as what comes first; of two different schemas that claim one
    name the first is stored, and what only the other depends on has no entry; and of two
    enumerations that claim one name the first has its values listed. -/
theorem entries_depend_on_order :
    Differs petList (referenceTo "Pet") petSchemas
      [("PetKind", false, true, ["cat", "dog"]), ("Pet", false, false, []),
        ("GetFirst200", false, false, [])]
      [("PetKind", false, true, ["cat", "dog"]), ("Pet", true, false, []),
        ("GetFirst200", false, false, [])] ∧
    Differs (referenceTo "foo-bar") (referenceTo "fooBar") objectAndEnum
      [("Pet", false, false, []), ("FooBar", true, false, [])] [("FooBar", false, true, ["a"])] ∧
    Differs (referenceTo "foo-bar") (referenceTo "fooBar") twoEnums
      [("FooBar", false, true, ["a"])] [("FooBar", false, true, ["b"])] := by
  refine ⟨differs_of_line kennel_reordered (by decide), ?_, ?_⟩
  · refine differs_of_line (exists_reordered ?_ ⟨by decide +kernel, by decide +kernel⟩
      (by decide +kernel) (by decide +kernel)) (by decide)
    simp [Json.Distinct, Json.DistinctFields, Json.DistinctItems, Keyed.keys, answers,
      objectAndEnum, firstPath, secondPath, referenceTo, answeringWith]
  · refine differs_of_line (exists_reordered ?_ ⟨by decide +kernel, by decide +kernel⟩
      (by decide +kernel) (by decide +kernel)) (by decide)
    simp [Json.Distinct, Json.DistinctFields, Json.DistinctItems, Keyed.keys, answers, twoEnums,
      firstPath, secondPath, referenceTo, answeringWith]

end Operation
end TypedClient
