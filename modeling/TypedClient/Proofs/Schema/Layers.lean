/-
  TypedClient.Proofs.Schema.Layers

  Which schema a composition takes each property from.  The layers of a schema are what it is put
  together from: those of each member of its composition, in sequence, and last its own keywords.
  A member gives its own keywords first and then, if it is a reference, what the target gives.

  Resolving never lists the layers.  It merges them two by two, on the way back from a recursion,
  and every merge is a union in which the first list wins.  Such unions may be regrouped, so that
  the properties of what is resolved are those of the layers in one row: each key stands where it
  is first declared, with the schema of the first layer that declares it.
-/
import TypedClient.Proofs.Override
import TypedClient.Proofs.Schema.Inheritance

namespace TypedClient

/-! ## Unions from nothing -/

namespace Keyed

variable {α β : Type}

/-- A union from nothing has each key where it comes up first. -/
theorem keys_union_nil (pairs : Keyed α) : keys (union [] pairs) = (keys pairs).eraseDups := by
  induction pairs using List.reverseRecOn with
  | nil => rfl
  | append_singleton rest pair ih =>
    have hkeys : keys (rest ++ [pair]) = keys rest ++ [pair.1] := by simp [keys]
    have hmem : has pair.1 (union [] rest) = true ↔ pair.1 ∈ keys rest := by
      rw [has_iff_mem_keys, ih, List.mem_eraseDups]
    rw [union_append, hkeys, eraseDups_concat]
    show keys (insertNew pair.1 pair.2 (union [] rest)) = _
    unfold insertNew
    by_cases h : pair.1 ∈ keys rest
    · rw [if_pos (hmem.mpr h), if_pos h, ih]
    · rw [if_neg (fun hhas => h (hmem.mp hhas)), if_neg h, ← ih]
      simp [keys]

/-- In several lists in a row a key is looked up list by list. -/
theorem get?_flatMap (key : String) (pairsOf : β → Keyed α) (items : List β) :
    get? key (items.flatMap pairsOf) = items.findSome? fun item => get? key (pairsOf item) := by
  induction items with
  | nil => rfl
  | cons item rest ih =>
    rw [List.flatMap_cons, get?_append, ih, List.findSome?_cons]
    cases get? key (pairsOf item) <;> rfl

theorem keys_flatMap (pairsOf : β → Keyed α) (items : List β) :
    keys (items.flatMap pairsOf) = items.flatMap fun item => keys (pairsOf item) :=
  List.map_flatMap

end Keyed

namespace Schema

variable {document : Json}

/-! ## Layers -/

/-- The keywords of a member itself: cleaned, and without its reference. -/
def ownKeywords (member : Schema) : Schema := { member.cleanup with ref := none }

mutual
/-- The layers of a schema, while the references in `following` are being followed. -/
inductive Layers (document : Json) : List String → Schema → List Schema → Prop where
  | intro {following : List String} {schema : Schema} {layers : List Schema}
      (hmembers : LayersOfMembers document following (schema.allOf.getD []) layers) :
      Layers document following schema (layers ++ [{ schema with allOf := none }])

/-- The layers of the members of a composition, in sequence. -/
inductive LayersOfMembers (document : Json) :
    List String → List SchemaNode → List Schema → Prop where
  | nil {following : List String} : LayersOfMembers document following [] []
  | cons {following : List String} {node : SchemaNode} {nodes : List SchemaNode}
      {first rest : List Schema} (hnode : LayersOfMember document following node first)
      (hnodes : LayersOfMembers document following nodes rest) :
      LayersOfMembers document following (node :: nodes) (first ++ rest)

/-- The layers of one member. -/
inductive LayersOfMember (document : Json) : List String → SchemaNode → List Schema → Prop where
  /-- A truth value has none. -/
  | bool {following : List String} {admits : Bool} :
      LayersOfMember document following (.bool admits) []
  /-- Without a reference they are those of its own keywords. -/
  | inline {following : List String} {member : Schema} {own : List Schema}
      (href : member.cleanup.ref = none)
      (hown : Layers document following (ownKeywords member) own) :
      LayersOfMember document following (.object member) own
  /-- A reference has those of its own keywords, and then those of its target. -/
  | reference {following : List String} {member target : Schema} {reference : String}
      {own base : List Schema} (href : member.cleanup.ref = some reference)
      (hfresh : reference ∉ following)
      (htarget : Reference.resolveNode document reference = some (.object target))
      (hown : Layers document following (ownKeywords member) own)
      (hbase : LayersOfMember document (reference :: following) (.object target) base) :
      LayersOfMember document following (.object member) (own ++ base)
  /-- A reference that is being followed already, or that leads to no schema object, has none. -/
  | skipped {following : List String} {member : Schema} {reference : String}
      (href : member.cleanup.ref = some reference)
      (hnothing : reference ∈ following ∨
        ∀ target, Reference.resolveNode document reference ≠ some (.object target)) :
      LayersOfMember document following (.object member) []
end

mutual

/-- A schema has its layers in one way only. -/
theorem Layers.unique {following : List String} {schema : Schema} {first second : List Schema} :
    Layers document following schema first → Layers document following schema second →
      first = second
  | .intro hfirst, .intro hsecond => by rw [hfirst.unique hsecond]

theorem LayersOfMembers.unique {following : List String} {nodes : List SchemaNode}
    {first second : List Schema} :
    LayersOfMembers document following nodes first →
      LayersOfMembers document following nodes second → first = second
  | .nil, .nil => rfl
  | .cons hnode hnodes, .cons hnode' hnodes' => by
    rw [hnode.unique hnode', hnodes.unique hnodes']

theorem LayersOfMember.unique {following : List String} {node : SchemaNode}
    {first second : List Schema} :
    LayersOfMember document following node first →
      LayersOfMember document following node second → first = second
  | .bool, .bool => rfl
  | .inline _ hown, .inline _ hown' => hown.unique hown'
  | .reference href hfresh htarget hown hbase, .reference href' _ htarget' hown' hbase' => by
    obtain rfl := Option.some.inj (href.symm.trans href')
    cases htarget.symm.trans htarget'
    rw [hown.unique hown', hbase.unique hbase']
  | .skipped _ _, .skipped _ _ => rfl
  | .inline href _, .reference href' _ _ _ _ => by cases href.symm.trans href'
  | .inline href _, .skipped href' _ => by cases href.symm.trans href'
  | .reference href _ _ _ _, .inline href' _ => by cases href.symm.trans href'
  | .skipped href _, .inline href' _ => by cases href.symm.trans href'
  | .reference href hfresh htarget _ _, .skipped href' hnothing => by
    obtain rfl := Option.some.inj (href.symm.trans href')
    exact absurd htarget (hnothing.resolve_left hfresh _)
  | .skipped href hnothing, .reference href' hfresh htarget _ _ => by
    obtain rfl := Option.some.inj (href.symm.trans href')
    exact absurd htarget (hnothing.resolve_left hfresh _)

end

/-! ## Properties of layers, merged -/

/-- The properties of the schema are those of the layers in one row, so far as a union can tell. -/
structure LayeredBy (schema : Schema) (layers : List Schema) : Prop where
  isSome : schema.properties.isSome = layers.any (·.properties.isSome)
  union : ∀ start : Keyed SchemaNode, Keyed.union start (schema.properties.getD []) =
    Keyed.union start (layers.flatMap (·.properties.getD []))

theorem layeredBy_empty : LayeredBy empty [] where
  isSome := rfl
  union _ := rfl

/-- A schema is put together from any layer with its properties. -/
theorem layeredBy_singleton {schema layer : Schema} (h : layer.properties = schema.properties) :
    LayeredBy schema [layer] where
  isSome := by rw [List.any_cons, List.any_nil, Bool.or_false, h]
  union start := by rw [List.flatMap_singleton, h]

section

variable {first second start : Schema} {upper lower : List Schema}

/-- Merging puts the layers of one schema on those of the other. -/
theorem LayeredBy.merge (hfirst : LayeredBy first upper) (hsecond : LayeredBy second lower) :
    LayeredBy (Schema.merge first second) (upper ++ lower) where
  isSome := by
    rw [isSome_merge_properties, hfirst.isSome, hsecond.isSome, List.any_append]
  union pairs := by
    rw [getD_merge_properties, Keyed.union_union, hfirst.union, hsecond.union, ← Keyed.union_append,
      List.flatMap_append]

/-- What layers do not declare counts for nothing below others. -/
theorem LayeredBy.append_empty (h : LayeredBy start upper) (hempty : LayeredBy empty lower) :
    LayeredBy start (upper ++ lower) := by
  have hmerged := h.merge hempty
  rwa [merge_empty_right] at hmerged

end

/-! ## Layers of what is flattened -/

/-- The contributions of members, merged below a schema, put the layers of the members below those
    of the schema. -/
theorem exists_layers_of_members {following : List String} {nodes : List SchemaNode}
    {contributions : List (Option Schema)}
    (h : List.Forall₂ (fun node contribution => ∃ layers,
      LayersOfMember document following node layers ∧
        LayeredBy (contribution.getD empty) layers) nodes contributions) :
    ∃ layers, LayersOfMembers document following nodes layers ∧ ∀ start upper,
      LayeredBy start upper →
        LayeredBy ((contributions.filterMap id).foldl merge start) (upper ++ layers) := by
  induction h with
  | nil => exact ⟨[], .nil, fun start upper hstart => by rwa [List.append_nil]⟩
  | @cons node contribution nodes contributions hnode _ ih =>
    obtain ⟨first, hfirst, hlayered⟩ := hnode
    obtain ⟨rest, hrest, hfold⟩ := ih
    refine ⟨first ++ rest, .cons hfirst hrest, fun start upper hstart => ?_⟩
    rw [← List.append_assoc]
    cases contribution with
    | none => exact hfold start _ (hstart.append_empty hlayered)
    | some part => exact hfold (merge start part) _ (hstart.merge hlayered)

/-- Flattening puts a schema together from its layers, and what a member contributes from the
    layers of the member. -/
theorem keptByFlattening_layered (document : Json) : KeptByFlattening document
    (fun following schema result =>
      ∃ layers, Layers document following schema layers ∧ LayeredBy result layers)
    (fun following node contribution => ∃ layers,
      LayersOfMember document following node layers ∧
        LayeredBy (contribution.getD empty) layers) where
  plain following schema hallOf := by
    -- A schema without a composition is its only layer.
    have hmembers : LayersOfMembers document following (schema.allOf.getD []) [] := by
      rw [hallOf]
      exact .nil
    exact ⟨_, .intro hmembers, layeredBy_singleton rfl⟩
  composed following schema members contributions hallOf hcontributions := by
    obtain ⟨layers, hlayers, hfold⟩ := exists_layers_of_members hcontributions
    have hmembers : LayersOfMembers document following (schema.allOf.getD []) layers := by
      rw [hallOf]
      exact hlayers
    exact ⟨_, .intro hmembers, (hfold empty [] layeredBy_empty).merge (layeredBy_singleton rfl)⟩
  bool _ _ := ⟨[], .bool, layeredBy_empty⟩
  inline _ _ _ href hsiblings := by
    obtain ⟨own, hown, hlayered⟩ := hsiblings
    exact ⟨own, .inline href hown, hlayered⟩
  target _ _ _ _ siblings base href hfresh htarget hsiblings hbase := by
    obtain ⟨own, hown, hlayered⟩ := hsiblings
    obtain ⟨below, hbelow, hlayered'⟩ := hbase
    refine ⟨own ++ below, .reference href hfresh htarget hown hbelow, ?_⟩
    cases base with
    | none => exact hlayered.append_empty hlayered'
    | some base => exact hlayered.merge hlayered'
  skipped _ _ _ href hnothing := ⟨[], .skipped href hnothing, layeredBy_empty⟩

theorem Flattens.exists_layers {following : List String} {schema result : Schema}
    (h : Flattens document following schema result) :
    ∃ layers, Layers document following schema layers ∧ LayeredBy result layers :=
  (keptByFlattening_layered document).flattens h

/-- What a composition is merged to declares each property once. -/
theorem nodup_keys_foldl_merge {parts : List Schema} {start : Schema}
    (h : (Keyed.keys (start.properties.getD [])).Nodup) :
    (Keyed.keys ((parts.foldl merge start).properties.getD [])).Nodup := by
  induction parts generalizing start with
  | nil => exact h
  | cons part rest ih =>
    refine ih ?_
    rw [getD_merge_properties]
    exact Keyed.nodup_keys_union h _

theorem nodup_keys_of_flattens {following : List String} {schema result : Schema}
    {members : List SchemaNode} (hallOf : schema.allOf = some members)
    (h : Flattens document following schema result) :
    (Keyed.keys (result.properties.getD [])).Nodup := by
  obtain ⟨contributions, -, rfl⟩ := h.of_allOf_eq_some hallOf
  have hnone : (Keyed.keys (empty.properties.getD [])).Nodup := List.nodup_nil
  rw [getD_merge_properties]
  exact Keyed.nodup_keys_union (nodup_keys_foldl_merge hnone) _

/-- The properties that a composition resolves to are the first-wins union of its layers, of which
    there is one sequence: there are any just when a layer declares some, the keys stand in the
    sequence in which they are first declared, and each has the schema of the first layer that
    declares it. -/
theorem resolved_properties_layered (document : Json) (schema : Schema)
    (hallOf : schema.allOf.isSome) : ∃ layers resolved,
      (∀ other, Layers document [] schema other ↔ other = layers) ∧
      Resolves document schema resolved ∧
      (resolved.properties.isSome ↔ ∃ layer ∈ layers, layer.properties.isSome) ∧
      Keyed.keys (resolved.properties.getD []) =
        (layers.flatMap fun layer => Keyed.keys (layer.properties.getD [])).eraseDups ∧
      ∀ key, resolved.property? key = layers.findSome? (·.property? key) := by
  obtain ⟨members, hallOf⟩ := Option.isSome_iff_exists.mp hallOf
  obtain ⟨resolved, hresolved⟩ := exists_flattens document [] schema
  obtain ⟨layers, hlayers, hlayered⟩ := hresolved.exists_layers
  -- The union from nothing is the list itself on the one side, and the row of layers on the other.
  have hunion : resolved.properties.getD [] =
      Keyed.union [] (layers.flatMap (·.properties.getD [])) := by
    rw [← hlayered.union, Keyed.union_of_nodup (nodup_keys_of_flattens hallOf hresolved)]
    rfl
  refine ⟨layers, resolved, fun other => ?_, hresolved, ?_, ?_, fun key => ?_⟩
  · exact ⟨fun hother => hother.unique hlayers, fun heq => heq ▸ hlayers⟩
  · rw [hlayered.isSome, List.any_eq_true]
  · rw [hunion, Keyed.keys_union_nil, Keyed.keys_flatMap]
  · unfold property?
    rw [hunion, Keyed.get?_union, ← Keyed.get?_flatMap]
    rfl

/-! ### A base schema that refers to itself -/

/-- A schema that declares properties and nothing else. -/
def declaring (properties : Keyed SchemaNode) : Schema := { properties := some properties }

theorem layers_declaring (following : List String) (properties : Keyed SchemaNode) :
    Layers document following (declaring properties) [declaring properties] := by
  have hmembers : LayersOfMembers document following ((declaring properties).allOf.getD []) [] :=
    .nil
  exact .intro hmembers

/-- The schema of a vessel, which says that it is a vessel, and has an id, a name and a flag. -/
def vessel : Schema where
  allOf := some [.object { ref := some "#/Vessel" },
    .object (declaring [("id", .bool true), ("name", .bool true)])]
  properties := some [("flag", .bool true)]

/-- A document with the schema of a vessel. -/
def vessels : Json :=
  .obj [("Vessel", .obj [
    ("allOf", .arr [.obj [("$ref", .str "#/Vessel")],
      .obj [("properties", .obj [("id", .bool true), ("name", .bool true)])]]),
    ("properties", .obj [("flag", .bool true)])])]

/-- A dinghy is a vessel without a name, and has oars, and an id of its own. -/
def dinghy : Schema where
  allOf := some [.object { ref := some "#/Vessel", properties := some [("name", .bool false)] },
    .bool true]
  properties := some [("oars", .bool true), ("id", .bool false)]

theorem resolveNode_vessel : Reference.resolveNode vessels "#/Vessel" = some (.object vessel) := by
  have hinternal : Reference.isInternal "#/Vessel" = true := by decide +kernel
  have htokens : Reference.tokens "#/Vessel" = ["Vessel"] := by decide +kernel
  unfold Reference.resolveNode Reference.resolve
  rw [if_pos hinternal, htokens]
  rfl

theorem cleanup_vessel : vessel.cleanup = vessel := by
  refine cleanup_of_normal ⟨?_, nofun, nofun⟩
  intro composition _ node h
  cases composition <;> cases h

/-- Without compositions and type names a schema is clean. -/
theorem cleanup_plain (ref : Option String) (properties : Option (Keyed SchemaNode)) :
    ({ ref := ref, properties := properties } : Schema).cleanup =
      { ref := ref, properties := properties } :=
  cleanup_of_normal (normal_of_plain rfl rfl rfl nofun)

/-- The vessel leaves itself out, and has the layers of its other member and its own. -/
theorem layers_vessel : LayersOfMember vessels ["#/Vessel"] (.object vessel)
    [declaring [("id", .bool true), ("name", .bool true)], declaring [("flag", .bool true)]] := by
  have hself : LayersOfMember vessels ["#/Vessel"] (.object { ref := some "#/Vessel" }) [] := by
    refine .skipped ?_ (Or.inl (List.mem_singleton_self _))
    rw [cleanup_plain]
  have hother : LayersOfMember vessels ["#/Vessel"]
      (.object (declaring [("id", .bool true), ("name", .bool true)]))
      [declaring [("id", .bool true), ("name", .bool true)]] := by
    refine .inline ?_ ?_
    · rw [declaring, cleanup_plain]
    · rw [ownKeywords, declaring, cleanup_plain]
      exact layers_declaring _ _
  have hmembers : LayersOfMembers vessels ["#/Vessel"] (vessel.allOf.getD [])
      [declaring [("id", .bool true), ("name", .bool true)]] := .cons hself (.cons hother .nil)
  refine .inline ?_ ?_
  · rw [cleanup_vessel]
    rfl
  · rw [ownKeywords, cleanup_vessel]
    exact .intro hmembers

/-- A dinghy has no name, as it says itself, the id of a vessel, and its own oars last. -/
theorem dinghy_layered : dinghy.allOf.isSome ∧ ∃ resolved, Resolves vessels dinghy resolved ∧
    Keyed.keys (resolved.properties.getD []) = ["name", "id", "flag", "oars"] ∧
    resolved.property? "name" = some (.bool false) ∧
    resolved.property? "id" = some (.bool true) := by
  have hsiblings : Layers vessels []
      (ownKeywords { ref := some "#/Vessel", properties := some [("name", .bool false)] })
      [declaring [("name", .bool false)]] := by
    rw [ownKeywords, cleanup_plain]
    exact layers_declaring _ _
  have hvessel : LayersOfMember vessels []
      (.object { ref := some "#/Vessel", properties := some [("name", .bool false)] })
      [declaring [("name", .bool false)], declaring [("id", .bool true), ("name", .bool true)],
        declaring [("flag", .bool true)]] := by
    refine .reference ?_ List.not_mem_nil resolveNode_vessel hsiblings layers_vessel
    rw [cleanup_plain]
  obtain ⟨layers, resolved, hlayers, hresolved, -, hkeys, hproperty⟩ :=
    resolved_properties_layered vessels dinghy rfl
  have hmembers : LayersOfMembers vessels [] (dinghy.allOf.getD []) _ :=
    .cons hvessel (.cons .bool .nil)
  obtain rfl := (hlayers _).mp (.intro hmembers)
  refine ⟨rfl, resolved, hresolved, hkeys.trans ?_, (hproperty "name").trans rfl,
    (hproperty "id").trans rfl⟩
  decide +kernel

end Schema
end TypedClient
