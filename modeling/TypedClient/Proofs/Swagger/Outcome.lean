/-
  TypedClient.Proofs.Swagger.Outcome

  Where the parts of a document are found in the outcome.  The upgrade comes last and keeps each
  value at its place, but for the values that it overwrites: so a place is first found in what the
  sections and the paths are converted to, and then it is shown that nothing on the way to it is
  overwritten.  The upgrade overwrites under two keys only, and never in a map of objects.
-/
import TypedClient.Proofs.Swagger.InstanceData

namespace TypedClient
namespace Swagger

open Reference (Step LeadsTo)

/-! ## Places that the upgrade keeps -/

/-- The path leads to the value, and nothing on the way is overwritten. -/
def Reaches (value : Json) (path : List Step) (target : Json) : Prop :=
  LeadsTo value path target ∧ ¬ Overwritten value path

section

variable {fields : Keyed Json} {name : String} {value inner middle target : Json}
  {path front back : List Step}

theorem Reaches.here (value : Json) : Reaches value [] value :=
  ⟨.here value, fun h => by cases h⟩

theorem Reaches.key (found : Keyed.get? name fields = some inner)
    (kept : ¬ Overwrites fields name) (rest : Reaches inner path target) :
    Reaches (.obj fields) (.key name :: path) target := by
  refine ⟨.key found rest.1, fun h => ?_⟩
  cases h with
  | here overwrites => exact kept overwrites
  | key other h =>
    cases found.symm.trans other
    exact rest.2 h

theorem Reaches.position {items : List Json} {index : Nat} (found : items[index]? = some inner)
    (rest : Reaches inner path target) :
    Reaches (.arr items) (.position index :: path) target := by
  refine ⟨.position found rest.1, fun h => ?_⟩
  cases h with
  | position other h =>
    cases found.symm.trans other
    exact rest.2 h

theorem Reaches.trans (hfront : Reaches value front middle) (hback : Reaches middle back target) :
    Reaches value (front ++ back) target := by
  obtain ⟨hleads, hkept⟩ := hfront
  induction hleads with
  | here value => exact hback
  | key found rest ih =>
    exact .key found (fun h => hkept (.here h)) (ih hback fun h => hkept (.key found h))
  | position found rest ih => exact .position found (ih hback fun h => hkept (.position found h))

/-- What is reached is found upgraded at its place. -/
theorem Reaches.upgrade (h : Reaches value path target) (hvalue : value.Distinct)
    (htarget : ¬ IsPlain target) : LeadsTo (upgrade value) path (upgrade target) :=
  leadsTo_upgrade h.1 hvalue htarget h.2

/-- Keys whose values the upgrade can overwrite. -/
def overwrittenKeys : List String := ["nullable", "format"]

theorem not_overwrites (h : name ∉ overwrittenKeys) : ¬ Overwrites fields name := by
  rintro (⟨rfl, -⟩ | ⟨rfl, -⟩)
  · exact h (by decide)
  · exact h (by decide)

/-- In a map of objects nothing is overwritten. -/
theorem HoldsObjects.not_overwrites (h : HoldsObjects fields) : ¬ Overwrites fields name := by
  rintro (⟨-, flag, hflag⟩ | ⟨-, hfile⟩)
  · obtain ⟨inner, hinner⟩ := h.get? hflag
    cases hinner
  · obtain ⟨inner, hinner⟩ := h.get? hfile
    cases hinner

/-- A field of an object, under a key whose value cannot be overwritten. -/
theorem Reaches.field (found : Keyed.get? name fields = some inner)
    (hname : name ∉ overwrittenKeys) : Reaches (.obj fields) [.key name] inner :=
  .key found (not_overwrites hname) (.here inner)

/-- A member of a map of objects. -/
theorem Reaches.member (found : Keyed.get? name fields = some inner)
    (hfields : HoldsObjects fields) : Reaches (.obj fields) [.key name] inner :=
  .key found hfields.not_overwrites (.here inner)

end

/-- Pairs of objects make up a map of objects. -/
theorem HoldsObjects.ofList {pairs : List (String × Json)} (h : HoldsObjects pairs) :
    HoldsObjects (Keyed.ofList pairs) := by
  refine List.foldlRecOn (motive := HoldsObjects) pairs _ (fun _ hmem => by cases hmem) ?_
  intro fields hfields pair hpair field hfield
  rcases Keyed.mem_insert hfield with hfield | rfl
  · exact hfields field hfield
  · exact h pair hpair

/-- Fields that are left out overwrite nothing. -/
theorem Overwrites.of_filter {fields : Keyed Json} {name : String}
    {keep : String × Json → Bool} (hnodup : (Keyed.keys fields).Nodup)
    (h : Overwrites (fields.filter keep) name) : Overwrites fields name := by
  have hget : ∀ {key value}, Keyed.get? key (fields.filter keep) = some value →
      Keyed.get? key fields = some value :=
    fun hvalue => Keyed.get?_of_mem hnodup (List.mem_filter.mp (Keyed.mem_of_get? hvalue)).1
  rcases h with ⟨hname, flag, hflag⟩ | ⟨hname, hfile⟩
  · exact Or.inl ⟨hname, flag, hget hflag⟩
  · exact Or.inr ⟨hname, hget hfile⟩

/-! ## Contents and responses -/

/-- Under each media type stands the schema. -/
theorem reaches_contentOf {mediaTypes : List String} {mediaType : String}
    (h : mediaType ∈ mediaTypes) (schema : Json) :
    Reaches (contentOf mediaTypes schema) [.key mediaType, .key "schema"] schema := by
  have hobjects : HoldsObjects (mediaTypes.map fun mediaType =>
      (mediaType, Json.obj [("schema", schema)])) := by
    intro pair hpair
    obtain ⟨mediaType, -, rfl⟩ := List.mem_map.mp hpair
    exact ⟨_, rfl⟩
  have hfound : Keyed.get? mediaType (Keyed.ofList (mediaTypes.map fun mediaType =>
      (mediaType, Json.obj [("schema", schema)]))) = some (.obj [("schema", schema)]) := by
    rw [Keyed.get?_ofList, ← List.map_reverse]
    -- A media type that is listed twice has the same schema both times.
    cases hvalue : Keyed.get? mediaType
        (mediaTypes.reverse.map fun mediaType => (mediaType, Json.obj [("schema", schema)])) with
    | none =>
      rw [Keyed.get?_eq_none_iff, Keyed.keys, List.map_map] at hvalue
      exact absurd (List.mem_map.mpr ⟨mediaType, List.mem_reverse.mpr h, rfl⟩) hvalue
    | some value =>
      obtain ⟨_, -, heq⟩ := List.mem_map.mp (Keyed.mem_of_get? hvalue)
      cases heq
      rfl
  exact (Reaches.member hfound hobjects.ofList).trans (.field rfl (by decide))

section

variable {response : Keyed Json} {produces : List String}

/-- A response with its fields converted, and before its schema is put in. -/
def restOfResponse (response : Keyed Json) : Keyed Json :=
  convertHeaders (((response.swapErase "schema").swapErase "examples").insertNew "description"
    (.str ""))

/-- A response that is no reference is put together from its schema and its other fields. -/
theorem convertResponse_obj (h : Keyed.get? "$ref" response = none) :
    convertResponse produces (.obj response) =
      .obj (match Keyed.get? "schema" response with
        | some schema => (restOfResponse response).insert "content" (contentOf produces schema)
        | none => restOfResponse response) := by
  have hown : ¬ Keyed.has "$ref" response = true := by
    rw [Keyed.has_eq_isSome, h]
    exact Bool.false_ne_true
  exact if_neg hown

/-- The headers of a response are converted in their place. -/
theorem reaches_headers (hnodup : (Keyed.keys response).Nodup)
    (hown : Keyed.get? "$ref" response = none) {headers : Keyed Json}
    (hheaders : Keyed.get? "headers" response = some (.obj headers)) :
    Reaches (convertResponse produces (.obj response)) [.key "headers"]
      (.obj (Keyed.mapValues convertHeader headers)) := by
  -- Taking out the schema and the examples moves the headers at most.
  have hkept : Keyed.get? "headers" (((response.swapErase "schema").swapErase
      "examples").insertNew "description" (.str "")) = some (.obj headers) := by
    rw [Keyed.get?_insertNew, ← hheaders, if_neg (by decide), Option.or_none]
    exact Keyed.get?_removeAll hnodup ["schema", "examples"] (by decide)
  have hrest : Keyed.get? "headers" (restOfResponse response) =
      some (.obj (Keyed.mapValues convertHeader headers)) := by
    unfold restOfResponse convertHeaders
    rw [hkept]
    exact Keyed.get?_insert_self ..
  rw [convertResponse_obj hown]
  refine .field ?_ (by decide)
  split
  · rw [Keyed.get?_insert_of_ne _ _ (by decide), hrest]
  · exact hrest

/-- The schema of a response stands under each media type. -/
theorem reaches_content (hown : Keyed.get? "$ref" response = none) {schema : Json}
    (hschema : Keyed.get? "schema" response = some schema) {mediaType : String}
    (hmediaType : mediaType ∈ produces) :
    Reaches (convertResponse produces (.obj response))
      [.key "content", .key mediaType, .key "schema"] schema := by
  rw [convertResponse_obj hown, hschema]
  exact (Reaches.field (Keyed.get?_insert_self ..) (by decide)).trans
    (reaches_contentOf hmediaType schema)

end

/-! ## Sections -/

section

variable {root : Keyed Json} {produces : List String}

/-- A section of the outcome is among the components. -/
theorem reaches_section (kind : Section) (hroot : (Keyed.keys root).Nodup) {value : Json}
    (hvalue : kind.value? root = some value) (paths : Keyed Json) :
    Reaches (.obj (outcomeOf root paths)) [.key "components", .key kind.component] value := by
  have hsection : Keyed.get? kind.component (componentsOf root) = some value :=
    (get?_componentsOf root kind).trans hvalue
  have hne : componentsOf root ≠ [] := by
    intro hempty
    rw [hempty] at hsection
    cases hsection
  have hcomponent : kind.component ∉ overwrittenKeys := by cases kind <;> decide
  exact (Reaches.field (get?_outcomeOf_components hroot hne paths) (by decide)).trans
    (.field hsection hcomponent)

/-- Conversion neither makes nor changes texts and truth values. -/
theorem convertMember_of_isPlain (kind : Section) {value : Json}
    (h : IsPlain value ∨ IsPlain (kind.convertMember produces value)) :
    kind.convertMember produces value = value := by
  cases value with
  | obj fields =>
    obtain ⟨converted, heq⟩ := convertMember_obj produces kind fields
    rw [heq] at h
    exact absurd h (by simp [IsPlain])
  | _ => cases kind <;> rfl

/-- A member of a section that stays in it is found there, converted. -/
theorem reaches_member (kind : Section) (hdistinct : (Json.obj root).Distinct)
    {members : Keyed Json} {name : String} {value : Json}
    (given : Keyed.get? kind.key root = some (.obj members))
    (found : Keyed.get? name members = some value) (keeps : kind.keeps value = true)
    (kept : ¬ Overwrites members name) (paths : Keyed Json) :
    Reaches (.obj (outcomeOf root paths))
      [.key "components", .key kind.component, .key name]
      (kind.convertMember (Context.of root).produces value) := by
  have hfields : fieldsOf (Keyed.get? kind.key root) = members := by
    rw [given]
    rfl
  have hmember : Keyed.get? name (kind.membersOf root) =
      some (kind.convertMember (Context.of root).produces value) :=
    get?_membersOf (by rw [hfields, found]) keeps
  have hne : kind.membersOf root ≠ [] := by
    intro hempty
    rw [hempty] at hmember
    cases hmember
  have hkept : ¬ Overwrites (kind.membersOf root) name := by
    intro h
    have hfilter := (overwrites_mapValues_iff fun _ => convertMember_of_isPlain kind).mp h
    rw [hfields] at hfilter
    exact kept (hfilter.of_filter (hdistinct.of_get? given).nodup)
  exact (reaches_section kind hdistinct.nodup (value?_of_obj given hne) paths).trans
    (.key hmember hkept (.here _))

end

/-! ## Operations -/

/-- Media types that an operation gives. -/
def producesOf (context : Context) (fields : Keyed Json) : List String :=
  (mediaTypes? (Keyed.get? "produces" fields)).getD context.produces

section

variable {context : Context} {root item fields paths : Keyed Json} {merged : List Resolved}
  {path method : String}

/-- The paths of the outcome are the converted ones. -/
theorem reaches_paths (hroot : (Keyed.keys root).Nodup) (paths : Keyed Json) :
    Reaches (.obj (outcomeOf root paths)) [.key "paths"] (.obj paths) :=
  .field (get?_outcomeOf_paths hroot paths) (by decide)

/-- The field of a path item is found under its key again, converted, unless it holds the shared
    parameters. -/
theorem reaches_itemField (hdistinct : (Json.obj root).Distinct)
    (hpaths : (Context.of root).paths (Keyed.get? "paths" root) = .ok paths)
    (hitem : item? (.obj root) path = some (.obj item)) {key : String} {value : Json}
    (hvalue : Keyed.get? key item = some value) (hkey : key ∉ "parameters" :: overwrittenKeys) :
    ∃ converted, (Context.of root).itemField path (itemsOf (Keyed.get? "parameters" item))
        (key, value) = .ok (key, converted) ∧
      Reaches (.obj (outcomeOf root paths)) [.key "paths", .key path, .key key] converted := by
  have hnodup : (Keyed.keys item).Nodup :=
    (distinct_of_item? hdistinct hitem).nodup
  have hroot := hdistinct.nodup
  rw [item?_obj] at hitem
  obtain ⟨outItem, hresult, hall⟩ := get?_paths_eq_ok hpaths hitem
  have hne : key ≠ "parameters" := fun heq => hkey (heq ▸ List.mem_cons_self ..)
  rw [← Keyed.get?_swapErase_of_ne hnodup hne] at hvalue
  obtain ⟨converted, hconverted, hfield⟩ :=
    get?_of_forall₂ hall (fun _ _ => itemField_key) hvalue
  refine ⟨converted, hfield, (reaches_paths hroot paths).trans ?_⟩
  exact (Reaches.member hresult (holdsObjects_paths hpaths)).trans
    (.field hconverted fun hmem => hkey (List.mem_cons_of_mem _ hmem))

theorem not_mem_of_method (h : method ∈ methodKeys) :
    method ∉ "parameters" :: overwrittenKeys := by
  have hall : ∀ method ∈ methodKeys, method ∉ "parameters" :: overwrittenKeys := by decide
  exact hall method h

/-- The responses of an operation are converted, each for the media types that it gives. -/
theorem get?_operationOf_responses (h : (Keyed.keys fields).Nodup) (request : Option Json) :
    Keyed.get? "responses" (operationOf context fields merged request) =
      some (.obj (convertResponses (producesOf context fields)
        (fieldsOf (Keyed.get? "responses" fields)))) := by
  have hrest : Keyed.get? "responses" (withRequest (withParameters (restOf fields)
      (keptParameters merged)) request) = Keyed.get? "responses" fields := by
    have hparameters : Keyed.get? "responses" (withParameters (restOf fields)
        (keptParameters merged)) = Keyed.get? "responses" fields := by
      have hrest : Keyed.get? "responses" (restOf fields) = Keyed.get? "responses" fields :=
        Keyed.get?_removeAll h _ (by decide)
      unfold withParameters
      split
      · exact hrest
      · rw [Keyed.get?_insert_of_ne _ _ (by decide), hrest]
    cases request with
    | none => exact hparameters
    | some request => exact (Keyed.get?_insert_of_ne _ _ (by decide)).trans hparameters
  rw [← hrest]
  exact Keyed.get?_insert_self ..

/-- The document has an operation with these fields, and these are its parameters once those of its
    path are merged with its own. -/
structure OperationAt (root : Keyed Json) (path method : String) (fields : Keyed Json)
    (merged : List Resolved) : Prop where
  isMethod : method ∈ methodKeys
  isMerged : ∃ item, item? (.obj root) path = some (.obj item) ∧
    Keyed.get? method item = some (.obj fields) ∧
    Merged (fieldsOf (Keyed.get? "parameters" root)) (itemsOf (Keyed.get? "parameters" item))
      (itemsOf (Keyed.get? "parameters" fields)) merged

theorem OperationAt.distinct (h : OperationAt root path method fields merged)
    (hdistinct : (Json.obj root).Distinct) : (Json.obj fields).Distinct := by
  obtain ⟨item, hitem, hfields, -⟩ := h.isMerged
  exact (distinct_of_item? hdistinct hitem).of_get? hfields

/-- Under a method of a converted document the parameters can be merged. -/
theorem exists_operationAt (hdistinct : (Json.obj root).Distinct)
    (hpaths : (Context.of root).paths (Keyed.get? "paths" root) = .ok paths)
    (hmethod : method ∈ methodKeys) (hitem : item? (.obj root) path = some (.obj item))
    (hfields : Keyed.get? method item = some (.obj fields)) :
    ∃ merged, OperationAt root path method fields merged := by
  have hoperation : (Json.obj fields).Distinct :=
    (distinct_of_item? hdistinct hitem).of_get? hfields
  obtain ⟨converted, hconverted, -⟩ :=
    reaches_itemField hdistinct hpaths hitem hfields (not_mem_of_method hmethod)
  obtain ⟨operation, -, hconverts⟩ := itemField_method hmethod hconverted
  rw [operation_eq hoperation.nodup] at hconverts
  obtain ⟨merged, hmerged, -⟩ := bind_eq_ok_iff.mp hconverts
  exact ⟨merged, hmethod, item, hitem, hfields, merge_eq_ok_iff.mp hmerged⟩

/-- The operation is found converted, with the request that its parameters amount to. -/
theorem OperationAt.reaches (h : OperationAt root path method fields merged)
    (hdistinct : (Json.obj root).Distinct)
    (hpaths : (Context.of root).paths (Keyed.get? "paths" root) = .ok paths) :
    ∃ request, requestOf (consumesOf (Context.of root) fields) merged path method = .ok request ∧
      Reaches (.obj (outcomeOf root paths)) [.key "paths", .key path, .key method]
        (.obj (operationOf (Context.of root) fields merged request)) := by
  obtain ⟨item, hitem, hfields, hmerged⟩ := h.isMerged
  obtain ⟨converted, hconverted, hreaches⟩ :=
    reaches_itemField hdistinct hpaths hitem hfields (not_mem_of_method h.isMethod)
  obtain ⟨operation, rfl, hoperation⟩ := itemField_method h.isMethod hconverted
  rw [operation_eq (h.distinct hdistinct).nodup] at hoperation
  obtain ⟨others, hothers, hoperation⟩ := bind_eq_ok_iff.mp hoperation
  obtain ⟨request, hrequest, hoperation⟩ := bind_eq_ok_iff.mp hoperation
  -- The merge has just one outcome.
  have hsame : (Context.of root).merge (itemsOf (Keyed.get? "parameters" item))
      (itemsOf (Keyed.get? "parameters" fields)) = .ok merged := merge_eq_ok_iff.mpr hmerged
  rw [hothers] at hsame
  cases hsame
  cases hoperation
  exact ⟨request, hrequest, hreaches⟩

/-- The request that the parameters of the operation amount to is found with it. -/
theorem OperationAt.reaches_request (h : OperationAt root path method fields merged)
    (hdistinct : (Json.obj root).Distinct)
    (hpaths : (Context.of root).paths (Keyed.get? "paths" root) = .ok paths) :
    ∃ request, requestOf (consumesOf (Context.of root) fields) merged path method = .ok request ∧
      ∀ body ∈ request, Reaches (.obj (outcomeOf root paths))
        [.key "paths", .key path, .key method, .key "requestBody"] body := by
  obtain ⟨request, hrequest, hreaches⟩ := h.reaches hdistinct hpaths
  refine ⟨request, hrequest, fun body hbody => hreaches.trans (.field ?_ (by decide))⟩
  rw [get?_operationOf (h.distinct hdistinct).nodup (by decide), Option.mem_def.mp hbody]
  exact Keyed.get?_insert_self ..

/-- The responses of the operation are found converted. -/
theorem OperationAt.reaches_responses (h : OperationAt root path method fields merged)
    (hdistinct : (Json.obj root).Distinct)
    (hpaths : (Context.of root).paths (Keyed.get? "paths" root) = .ok paths) :
    Reaches (.obj (outcomeOf root paths))
      [.key "paths", .key path, .key method, .key "responses"]
      (.obj (convertResponses (producesOf (Context.of root) fields)
        (fieldsOf (Keyed.get? "responses" fields)))) := by
  obtain ⟨request, -, hreaches⟩ := h.reaches hdistinct hpaths
  exact hreaches.trans
    (.field (get?_operationOf_responses (h.distinct hdistinct).nodup request) (by decide))

end

end Swagger
end TypedClient
